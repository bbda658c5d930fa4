import Mathlib.Tactic
import MonkeyLang.Proofs.Parser.Progress

/-!
# A semicolon is as good as the end

What stands behind a construct is only looked at to see whether the construct goes on, and neither
the end nor a semicolon goes on with anything. So a parse does the same on an input that ends and on
one that has a semicolon there, whatever follows the semicolon. Two inputs of this kind *mirror*
each other as long as the place where they differ is not reached.

An attempt is *steady* if it ends alike on inputs that mirror each other. Nothing is asked once the
first run is spoilt, by a diagnostic or because it has come to its end: a run that is spoilt stays
so, because attempts move forward. This makes steadiness a property of chains, and the parsing functions
have it by induction on the nested calls that are allowed. The end of a statement is the one place
where a semicolon is taken, which `Input.Closes` allows for. The loops take the tokens left as their
bound, and these differ in number, so the rounds of two loops are compared with `Attempt.Paired`.
-/

set_option autoImplicit false

namespace MonkeyLang.Parser

variable {α β : Type} {follow : List Token}

/-! ### Inputs that differ behind -/

/-- The two inputs agree up to some token; where the first one then ends, the second one goes on
with `follow`. -/
structure Input.Mirrors (follow : List Token) (input other : Input) : Prop where
  tokens : ∃ common, common ≠ [] ∧ input.tokens = common ++ [.endOfInput] ∧
    other.tokens = common ++ follow
  problems : other.problems = input.problems

/-- Diagnostics have been added, or the end has been reached. -/
def Input.Spoilt (count : Nat) (input : Input) : Prop :=
  count < input.problems.size ∨ input.tokens.length ≤ 1

namespace Input

variable {input other rest : Input} {count : Nat}

theorem Spoilt.mono (h : input.Spoilt count) (hprecedes : input.Precedes rest) :
    rest.Spoilt count :=
  h.imp (fun hcount ↦ hcount.trans_le hprecedes.size_le)
    fun hlength ↦ hprecedes.tokens.length_le.trans hlength

theorem Spoilt.of_le {fewer : Nat} (h : input.Spoilt count) (hle : fewer ≤ count) :
    input.Spoilt fewer :=
  h.imp_left hle.trans_lt

theorem spoilt_report (input : Input) (problem : Diagnostic)
    (hcount : count ≤ input.problems.size) :
    (input.report problem).Spoilt count := by
  left
  rw [problems_report, Array.size_push]
  omega

namespace Mirrors

theorem lengths (h : input.Mirrors follow other) :
    1 < input.tokens.length ∧ 0 < other.tokens.length := by
  obtain ⟨common, hne, hinput, hother⟩ := h.tokens
  have hpos := List.length_pos_iff.mpr hne
  rw [hinput, hother, List.length_append, List.length_append, List.length_singleton]
  omega

theorem current_eq (h : input.Mirrors follow other) : other.current = input.current := by
  obtain ⟨common, hne, hinput, hother⟩ := h.tokens
  obtain ⟨first, rest, rfl⟩ := List.exists_cons_of_ne_nil hne
  rw [Input.current, Input.current, hinput, hother]
  rfl

/-- One token further on they still mirror each other, or the first one has come to its end. -/
theorem advance (h : input.Mirrors follow other) :
    (input.peek.kind = .endOfInput ∧ other.peek.kind = (follow.headD .endOfInput).kind ∧
        input.advance.tokens = [.endOfInput] ∧ other.advance.tokens = follow) ∨
      (other.peek = input.peek ∧ input.advance.Mirrors follow other.advance) := by
  obtain ⟨common, hne, hinput, hother⟩ := h.tokens
  obtain ⟨first, common, rfl⟩ := List.exists_cons_of_ne_nil hne
  have hadvance : input.advance.tokens = common ++ [.endOfInput] := by
    rw [Input.advance, hinput]
    rfl
  have hadvance' : other.advance.tokens = common ++ follow := by
    rw [Input.advance, hother]
    rfl
  rw [peek_eq_current_advance, peek_eq_current_advance, Input.current, Input.current, hadvance,
    hadvance']
  cases common with
  | nil => exact .inl ⟨rfl, rfl, rfl, rfl⟩
  | cons second common =>
    refine .inr ⟨rfl, ⟨second :: common, List.cons_ne_nil _ _, hadvance, hadvance'⟩, ?_⟩
    exact h.problems

end Mirrors

end Input

/-- The inputs behind a statement: the second one may have taken the semicolon where the first one
ends. -/
def Input.Closes (follow : List Token) (input other : Input) : Prop :=
  input.Mirrors follow other ∨
    (input.advance.tokens = [.endOfInput] ∧ other.tokens = follow ∧
      other.problems = input.problems)

/-! ### Outcomes that differ behind -/

/-- Unless the first attempt was cut off or is spoilt, both end alike, at related inputs. -/
def Outcome.Mirrors (follow : List Token) (ends : Input → Input → Prop) (count : Nat) :
    Outcome α → Outcome α → Prop
  | .cutOff _, _ => True
  | .done value rest, other =>
    rest.Spoilt count ∨ ∃ rest', other = .done value rest' ∧ ends rest rest'
  | .failed rest, other =>
    rest.Spoilt count ∨ ∃ rest', other = .failed rest' ∧ rest.Mirrors follow rest'

namespace Outcome.Mirrors

variable {ends ends' : Input → Input → Prop} {count : Nat}

theorem of_spoilt {outcome : Outcome α} (h : outcome.rest.Spoilt count) (other : Outcome α) :
    outcome.Mirrors follow ends count other := by
  cases outcome with
  | done value rest => exact .inl h
  | failed rest => exact .inl h
  | cutOff rest => trivial

theorem of_le {outcome other : Outcome α} (h : outcome.Mirrors follow ends count other)
    {fewer : Nat} (hle : fewer ≤ count) : outcome.Mirrors follow ends fewer other := by
  cases outcome with
  | done value rest => exact Or.imp_left (·.of_le hle) h
  | failed rest => exact Or.imp_left (·.of_le hle) h
  | cutOff rest => trivial

theorem bind {first first' : Attempt α} {next next' : α → Attempt β} {input other : Input}
    (hfirst : (first input).Mirrors follow ends count (first' other))
    (hforward : ∀ value, (next value).Forward)
    (hnext : ∀ value rest rest', first input = .done value rest →
      first' other = .done value rest' → ends rest rest' →
        (next value rest).Mirrors follow ends' count (next' value rest')) :
    ((first >>= next) input).Mirrors follow ends' count ((first' >>= next') other) := by
  rw [bind_apply, bind_apply]
  cases houtcome : first input with
  | done value rest =>
    rw [houtcome] at hfirst
    rcases hfirst with hspoilt | ⟨rest', hother, hends⟩
    · exact of_spoilt (hspoilt.mono (hforward value rest)) _
    · rw [hother]
      exact hnext value rest rest' houtcome hother hends
  | failed rest =>
    rw [houtcome] at hfirst
    rcases hfirst with hspoilt | ⟨rest', hother, hmirrors⟩
    · exact .inl hspoilt
    · rw [hother]
      exact .inr ⟨rest', rfl, hmirrors⟩
  | cutOff rest => trivial

end Outcome.Mirrors

/-! ### Attempts that do not look behind -/

/-- The attempt moves forward, and does the same whether the input ends or goes on with `follow`. -/
structure Attempt.Steady (follow : List Token) (ends : Input → Input → Prop)
    (construct : Attempt α) : Prop where
  forward : construct.Forward
  mirrors : ∀ {input other : Input}, input.Mirrors follow other →
    (construct input).Mirrors follow ends input.problems.size (construct other)

namespace Attempt

variable {ends : Input → Input → Prop}

theorem Steady.bind {first : Attempt α} {next : α → Attempt β}
    (hfirst : first.Steady follow (Input.Mirrors follow))
    (hnext : ∀ value, (next value).Steady follow ends) :
    (first >>= next).Steady follow ends := by
  refine ⟨hfirst.forward.bind fun value ↦ (hnext value).forward, fun {input other} hmirrors ↦ ?_⟩
  refine .bind (hfirst.mirrors hmirrors) (fun value ↦ (hnext value).forward) ?_
  intro value rest rest' hdone _ hrest
  exact ((hnext value).mirrors hrest).of_le (hfirst.forward.of_done hdone).size_le

theorem steady_pure (value : α) : (pure value : Attempt α).Steady follow (Input.Mirrors follow) :=
  ⟨(orderly_pure value).forward, fun hmirrors ↦ .inr ⟨_, rfl, hmirrors⟩⟩

theorem steady_cutOff : (cutOff : Attempt α).Steady follow ends :=
  ⟨orderly_cutOff.forward, fun _ ↦ trivial⟩

theorem steady_refuse (problem : Diagnostic) :
    (refuse problem : Attempt α).Steady follow ends :=
  ⟨(orderly_refuse problem).forward, fun _ ↦ .inl (Input.spoilt_report _ _ le_rfl)⟩

theorem steady_failed : (failed : Attempt α).Steady follow ends :=
  ⟨forward_failed, fun hmirrors ↦ .inr ⟨_, rfl, hmirrors⟩⟩

theorem steady_current : current.Steady follow (Input.Mirrors follow) := by
  refine ⟨orderly_current.forward, fun {input other} hmirrors ↦ .inr ⟨other, ?_, hmirrors⟩⟩
  rw [current, hmirrors.current_eq]

theorem steady_advance : advance.Steady follow (Input.Mirrors follow) := by
  refine ⟨orderly_advance.forward, fun {input other} hmirrors ↦ ?_⟩
  rcases hmirrors.advance with ⟨-, -, hend, -⟩ | ⟨-, hrest⟩
  · exact .inl (.inr (by rw [hend]; exact le_rfl))
  · exact .inr ⟨_, rfl, hrest⟩

theorem steady_expect {kind : Kind} (hkind : kind ≠ .endOfInput) :
    (expect kind).Steady follow (Input.Mirrors follow) := by
  refine ⟨(orderly_expect kind).forward, fun {input other} hmirrors ↦ ?_⟩
  unfold expect
  rcases hmirrors.advance with ⟨hend, -, -, -⟩ | ⟨hpeek, hrest⟩
  · rw [hend, if_neg hkind.symm]
    exact .inl (Input.spoilt_report _ _ le_rfl)
  · rw [hpeek]
    split_ifs
    · exact .inr ⟨_, rfl, hrest⟩
    · exact .inl (Input.spoilt_report _ _ le_rfl)

theorem Steady.optional {construct : Attempt α} (h : construct.Steady follow ends)
    (hends : ∀ {input other : Input}, input.Mirrors follow other → ends input other) :
    construct.optional.Steady follow ends := by
  refine ⟨h.forward.optional.forward, fun {input other} hmirrors ↦ ?_⟩
  have houtcomes := h.mirrors hmirrors
  unfold Attempt.optional
  cases houtcome : construct input with
  | cutOff rest => trivial
  | done value rest =>
    rw [houtcome] at houtcomes
    rcases houtcomes with hspoilt | ⟨rest', hother, hrest⟩
    · exact .inl hspoilt
    · rw [hother]
      exact .inr ⟨rest', rfl, hrest⟩
  | failed rest =>
    rw [houtcome] at houtcomes
    rcases houtcomes with hspoilt | ⟨rest', hother, hrest⟩
    · exact .inl hspoilt
    · rw [hother]
      exact .inr ⟨rest', rfl, hends hrest⟩

/-- A failure is reported, so it need not be the same. -/
theorem Steady.reportSilence {construct : Attempt α} (h : construct.Steady follow ends) :
    (reportSilence construct).Steady follow ends := by
  refine ⟨h.forward.reportSilence.forward, fun {input other} hmirrors ↦ ?_⟩
  have houtcomes := h.mirrors hmirrors
  cases houtcome : Parser.reportSilence construct input with
  | cutOff rest => trivial
  | failed rest => exact .inl (.inl (h.forward.reportSilence.reports houtcome))
  | done value rest =>
    rw [reportSilence_eq_done_iff.mp houtcome] at houtcomes
    rcases houtcomes with hspoilt | ⟨rest', hother, hrest⟩
    · exact .inl hspoilt
    · exact .inr ⟨rest', reportSilence_eq_done_iff.mpr hother, hrest⟩

theorem steady_integerLiteral (token : Token) :
    (integerLiteral token).Steady follow (Input.Mirrors follow) := by
  rw [integerLiteral]
  split
  · split_ifs
    · exact steady_pure _
    · exact steady_refuse _
  · exact steady_refuse _

theorem steady_booleanLiteral (token : Token) :
    (booleanLiteral token).Steady follow (Input.Mirrors follow) := by
  rw [booleanLiteral]
  split_ifs
  · exact steady_pure _
  · exact steady_pure _
  · exact steady_refuse _

variable (hfollow : (follow.headD .endOfInput).kind = .semicolon)

include hfollow

theorem steady_accept {kind : Kind} (hkind : kind ≠ .endOfInput) (hkind' : kind ≠ .semicolon) :
    (accept kind).Steady follow (Input.Mirrors follow) := by
  refine ⟨(orderly_accept kind).forward, fun {input other} hmirrors ↦ ?_⟩
  unfold accept
  rcases hmirrors.advance with ⟨hend, hend', -, -⟩ | ⟨hpeek, hrest⟩
  · rw [hend, hend', hfollow, if_neg hkind.symm, if_neg hkind'.symm]
    exact .inr ⟨_, rfl, hmirrors⟩
  · rw [hpeek]
    split_ifs
    · exact .inr ⟨_, rfl, hrest⟩
    · exact .inr ⟨_, rfl, hmirrors⟩

/-- The end of a statement, where the semicolon is taken if there is one. -/
theorem steady_semicolon (tree : Stmt) :
    (accept .semicolon >>= fun _ ↦ pure tree).Steady follow (Input.Closes follow) := by
  refine ⟨(orderly_accept _).forward.bind fun _ ↦ (orderly_pure tree).forward,
    fun {input other} hmirrors ↦ ?_⟩
  rw [accept_bind_apply, accept_bind_apply]
  rcases hmirrors.advance with ⟨hend, hend', htokens, htokens'⟩ | ⟨hpeek, hrest⟩
  · rw [hend, hend', hfollow, if_neg (by decide), if_pos rfl]
    exact .inr ⟨_, rfl, .inr ⟨htokens, htokens', hmirrors.problems⟩⟩
  · rw [hpeek]
    split_ifs
    · exact .inr ⟨_, rfl, .inl hrest⟩
    · exact .inr ⟨_, rfl, .inl hmirrors⟩

end Attempt

/-! ### Loops -/

/-- As `Steady`, for two attempts that only agree while few tokens are left. A loop is bounded by
the tokens left, which the two inputs have different numbers of. -/
structure Attempt.Paired (follow : List Token) (few few' : Nat) (first second : Attempt α) :
    Prop where
  forward : first.Forward
  mirrors : ∀ {input other : Input}, input.Mirrors follow other → input.tokens.length ≤ few →
    other.tokens.length ≤ few' →
      (first input).Mirrors follow (Input.Mirrors follow) input.problems.size (second other)

namespace Attempt

variable {few few' : Nat}

theorem Steady.paired {construct : Attempt α}
    (h : construct.Steady follow (Input.Mirrors follow)) :
    construct.Paired follow few few' construct :=
  ⟨h.forward, fun hmirrors _ _ ↦ h.mirrors hmirrors⟩

/-- No tokens are left only where no inputs mirror each other. -/
theorem Forward.paired {first : Attempt α} (h : first.Forward) {second : Attempt α}
    (hfew : few = 0 ∨ few' = 0) : first.Paired follow few few' second := by
  refine ⟨h, fun hmirrors hlength hlength' ↦ ?_⟩
  have hlengths := hmirrors.lengths
  omega

theorem Steady.bind_paired {first : Attempt α} {next next' : α → Attempt β}
    (hfirst : first.Steady follow (Input.Mirrors follow))
    (hnext : ∀ value, (next value).Paired follow few few' (next' value)) :
    (first >>= next).Paired follow few few' (first >>= next') := by
  refine ⟨hfirst.forward.bind fun value ↦ (hnext value).forward, fun hmirrors hlength hlength' ↦ ?_⟩
  refine .bind (hfirst.mirrors hmirrors) (fun value ↦ (hnext value).forward) ?_
  intro value rest rest' hdone hdone' hrest
  have hprecedes := hfirst.forward.of_done hdone
  have hprecedes' := hfirst.forward.of_done hdone'
  exact ((hnext value).mirrors hrest (hprecedes.tokens.length_le.trans hlength)
    (hprecedes'.tokens.length_le.trans hlength')).of_le hprecedes.size_le

theorem Paired.bind {first second : Attempt α} {next : α → Attempt β}
    (hfirst : first.Paired follow few few' second)
    (hnext : ∀ value, (next value).Steady follow (Input.Mirrors follow)) :
    (first >>= next).Paired follow few few' (second >>= next) := by
  refine ⟨hfirst.forward.bind fun value ↦ (hnext value).forward, fun hmirrors hlength hlength' ↦ ?_⟩
  refine .bind (hfirst.mirrors hmirrors hlength hlength') (fun value ↦ (hnext value).forward) ?_
  intro value rest rest' hdone _ hrest
  exact ((hnext value).mirrors hrest).of_le (hfirst.forward.of_done hdone).size_le

/-- A construct that may end where a statement does, and the next token. -/
theorem Steady.bind_advance_paired {first : Attempt α} {next next' : α → Attempt β}
    (hfirst : first.Steady follow (Input.Closes follow))
    (hnext : ∀ value, (next value).Paired follow few few' (next' value)) :
    (first >>= fun value ↦ advance >>= fun _ ↦ next value).Paired follow (few + 1) (few' + 1)
      (first >>= fun value ↦ advance >>= fun _ ↦ next' value) := by
  have hforward (value : α) : (advance >>= fun _ ↦ next value).Forward :=
    orderly_advance.forward.bind fun _ ↦ (hnext value).forward
  refine ⟨hfirst.forward.bind hforward, fun {input other} hmirrors hlength hlength' ↦ ?_⟩
  refine .bind (hfirst.mirrors hmirrors) hforward ?_
  intro value rest rest' hdone hdone' hrest
  rw [advance_bind_apply, advance_bind_apply]
  have hspoilt (hend : rest.advance.tokens = [.endOfInput]) :
      (next value rest.advance).Mirrors follow (Input.Mirrors follow) input.problems.size
        (next' value rest'.advance) := by
    refine .of_spoilt (Input.Spoilt.mono (.inr ?_) ((hnext value).forward _)) _
    rw [hend]
    exact le_rfl
  rcases hrest with hrest | ⟨hend, -, -⟩
  · rcases hrest.advance with ⟨-, -, hend, -⟩ | ⟨-, hadvance⟩
    · exact hspoilt hend
    · have hprecedes := hfirst.forward.of_done hdone
      have hfew := hprecedes.tokens.length_le
      have hfew' := (hfirst.forward.of_done hdone').tokens.length_le
      refine ((hnext value).mirrors hadvance ?_ ?_).of_le hprecedes.size_le
      · rw [Input.length_advance]
        omega
      · rw [Input.length_advance]
        omega
  · exact hspoilt hend

theorem paired_advance {next next' : Attempt α} (hnext : next.Paired follow few few' next') :
    (advance >>= fun _ ↦ next).Paired follow (few + 1) (few' + 1) (advance >>= fun _ ↦ next') := by
  have hpure : (pure () : Attempt Unit).Steady follow (Input.Closes follow) :=
    ⟨(orderly_pure ()).forward, fun hmirrors ↦ .inr ⟨_, rfl, .inl hmirrors⟩⟩
  exact hpure.bind_advance_paired fun _ ↦ hnext

/-- A loop over the tokens left, which it takes as its bound. -/
theorem Paired.remaining {loop : List Token → Attempt α}
    (h : ∀ bound bound', (loop bound).Paired follow bound.length bound'.length (loop bound')) :
    (remaining >>= loop).Steady follow (Input.Mirrors follow) := by
  refine ⟨orderly_remaining.forward.bind fun bound ↦ (h bound bound).forward, fun hmirrors ↦ ?_⟩
  rw [remaining_bind_apply, remaining_bind_apply]
  exact (h _ _).mirrors hmirrors le_rfl le_rfl

/-- The two bounds of a loop shrink together; where one has run out, no inputs mirror each other. -/
theorem paired_of_round {loop : List Token → β → Attempt α}
    (hforward : ∀ bound state, (loop bound state).Forward)
    (hround : ∀ {first first' : Token} {bound bound' : List Token},
      (∀ state, (loop bound state).Paired follow bound.length bound'.length (loop bound' state)) →
        ∀ state, (loop (first :: bound) state).Paired follow (bound.length + 1)
          (bound'.length + 1) (loop (first' :: bound') state))
    (bound bound' : List Token) (state : β) :
    (loop bound state).Paired follow bound.length bound'.length (loop bound' state) := by
  induction bound generalizing bound' state with
  | nil => exact (hforward [] state).paired (.inl rfl)
  | cons first bound ih =>
    cases bound' with
    | nil => exact (hforward _ state).paired (.inr rfl)
    | cons first' bound' => exact hround (ih bound') state

theorem Steady.statementsToBrace {statement : Attempt Stmt}
    (h : statement.Steady follow (Input.Closes follow)) (bound bound' : List Token)
    (done : List Stmt) :
    (statementsToBrace statement bound done).Paired follow bound.length bound'.length
      (statementsToBrace statement bound' done) := by
  refine paired_of_round (fun bound done ↦ (h.forward.statementsToBrace bound done).forward) ?_
    bound bound' done
  intro first first' bound bound' ih done
  rw [Parser.statementsToBrace, Parser.statementsToBrace]
  refine steady_current.bind_paired fun token ↦ ?_
  split
  · exact (steady_pure _).paired
  · exact (steady_refuse _).paired
  · exact (h.optional .inl).bind_advance_paired fun found ↦ ih _

variable (hfollow : (follow.headD .endOfInput).kind = .semicolon)

include hfollow

theorem paired_peekKind {next next' : Kind → Attempt α}
    (hnext : ∀ kind, (next kind).Paired follow few few' (next' kind))
    (hend : next' .semicolon = next' .endOfInput) :
    (peekKind >>= next).Paired follow few few' (peekKind >>= next') := by
  refine ⟨orderly_peekKind.forward.bind fun kind ↦ (hnext kind).forward,
    fun hmirrors hlength hlength' ↦ ?_⟩
  rw [peekKind_bind_apply, peekKind_bind_apply]
  rcases hmirrors.advance with ⟨hkind, hkind', -, -⟩ | ⟨hpeek, -⟩
  · rw [hkind, hkind', hfollow, hend]
    exact (hnext .endOfInput).mirrors hmirrors hlength hlength'
  · rw [hpeek]
    exact (hnext _).mirrors hmirrors hlength hlength'

theorem paired_accept {kind : Kind} {yes yes' no no' : Attempt α} (hkind : kind ≠ .endOfInput)
    (hkind' : kind ≠ .semicolon) (hyes : yes.Paired follow few few' yes')
    (hno : no.Paired follow (few + 1) (few' + 1) no') :
    (accept kind >>= fun accepted ↦ if accepted then yes else no).Paired follow (few + 1)
      (few' + 1) (accept kind >>= fun accepted ↦ if accepted then yes' else no') := by
  constructor
  · refine (orderly_accept kind).forward.bind fun accepted ↦ ?_
    split_ifs
    · exact hyes.forward
    · exact hno.forward
  · intro input other hmirrors hlength hlength'
    rw [accept_bind_apply, accept_bind_apply]
    rcases hmirrors.advance with ⟨hend, hend', -, -⟩ | ⟨hpeek, hadvance⟩
    · rw [hend, hend', hfollow, if_neg hkind.symm, if_neg hkind'.symm]
      exact hno.mirrors hmirrors hlength hlength'
    · rw [hpeek]
      by_cases haccepted : input.peek.kind = kind
      · rw [if_pos haccepted, if_pos haccepted]
        refine hyes.mirrors hadvance ?_ ?_
        · rw [Input.length_advance]
          omega
        · rw [Input.length_advance]
          omega
      · rw [if_neg haccepted, if_neg haccepted]
        exact hno.mirrors hmirrors hlength hlength'

theorem paired_namesAfterComma (bound bound' : List Token) (done : List Identifier) :
    (namesAfterComma bound done).Paired follow bound.length bound'.length
      (namesAfterComma bound' done) := by
  refine paired_of_round (fun bound done ↦ (orderly_namesAfterComma bound done).forward) ?_
    bound bound' done
  intro first first' bound bound' ih done
  rw [namesAfterComma, namesAfterComma]
  refine paired_accept hfollow (by decide) (by decide) ?_ (steady_pure _).paired
  refine (steady_expect (by decide)).bind_paired fun _ ↦ ?_
  exact steady_current.bind_paired fun token ↦ ih _

theorem Steady.itemsAfterComma {item : Attempt Expr}
    (h : item.Steady follow (Input.Mirrors follow)) (horderly : item.Orderly)
    (bound bound' : List Token) (done : List Expr) :
    (itemsAfterComma item bound done).Paired follow bound.length bound'.length
      (itemsAfterComma item bound' done) := by
  refine paired_of_round (fun bound done ↦ (horderly.itemsAfterComma bound done).forward) ?_
    bound bound' done
  intro first first' bound bound' ih done
  rw [Parser.itemsAfterComma, Parser.itemsAfterComma]
  refine paired_accept hfollow (by decide) (by decide) ?_ (steady_pure _).paired
  exact steady_advance.bind_paired fun _ ↦ h.bind_paired fun next ↦ ih _

theorem Steady.pairsToBrace {item : Attempt Expr}
    (h : item.Steady follow (Input.Mirrors follow)) (horderly : item.Orderly)
    (bound bound' : List Token) (done : List (Expr × Expr)) :
    (pairsToBrace item bound done).Paired follow bound.length bound'.length
      (pairsToBrace item bound' done) := by
  refine paired_of_round (fun bound done ↦ (horderly.pairsToBrace bound done).forward) ?_
    bound bound' done
  intro first first' bound bound' ih done
  rw [Parser.pairsToBrace, Parser.pairsToBrace]
  refine paired_peekKind hfollow (fun kind ↦ ?_) rfl
  split_ifs
  · exact (steady_pure _).paired
  · refine paired_advance (h.bind_paired fun key ↦ ?_)
    refine (steady_expect (by decide)).bind_paired fun _ ↦ ?_
    refine steady_advance.bind_paired fun _ ↦ h.bind_paired fun value ↦ ?_
    refine paired_peekKind hfollow (fun kind ↦ ?_) rfl
    split_ifs
    · exact (steady_expect (by decide)).bind_paired fun _ ↦ ih _
    · exact ih _

theorem paired_climb {extend : Expr → Attempt Expr}
    (h : ∀ left, (extend left).Steady follow (Input.Mirrors follow))
    (horderly : ∀ left, (extend left).Orderly) (floor : Nat) (bound bound' : List Token)
    (left : Expr) :
    (climb extend floor bound left).Paired follow bound.length bound'.length
      (climb extend floor bound' left) := by
  refine paired_of_round (fun bound left ↦ (orderly_climb horderly floor bound left).forward) ?_
    bound bound' left
  intro first first' bound bound' ih left
  rw [climb, climb]
  refine paired_peekKind hfollow (fun kind ↦ ?_) rfl
  split_ifs
  · exact paired_advance ((h left).bind_paired fun left ↦ ih left)
  · exact (steady_pure _).paired

end Attempt

/-! ### The parsing functions -/

open Attempt

/-- The parsing functions do not look behind a semicolon when `depth` nested calls are allowed. -/
structure SteadyAt (follow : List Token) (depth : Nat) : Prop where
  statement : (statement depth).Steady follow (Input.Closes follow)
  letStatement : (letStatement depth).Steady follow (Input.Closes follow)
  returnStatement : (returnStatement depth).Steady follow (Input.Closes follow)
  expressionStatement : (expressionStatement depth).Steady follow (Input.Closes follow)
  block : (block depth).Steady follow (Input.Mirrors follow)
  expression : ∀ floor, (expression depth floor).Steady follow (Input.Mirrors follow)
  required : (required depth).Steady follow (Input.Mirrors follow)
  unary : ∀ token, (unary depth token).Steady follow (Input.Mirrors follow)
  binary : ∀ token left, (binary depth token left).Steady follow (Input.Mirrors follow)
  grouped : (grouped depth).Steady follow (Input.Mirrors follow)
  conditional : ∀ token, (conditional depth token).Steady follow (Input.Mirrors follow)
  functionLiteral : ∀ token, (functionLiteral depth token).Steady follow (Input.Mirrors follow)
  items : ∀ {close : Kind}, close ≠ .endOfInput → close ≠ .semicolon →
    (items depth close).Steady follow (Input.Mirrors follow)
  call : ∀ token callee, (call depth token callee).Steady follow (Input.Mirrors follow)
  arrayLiteral : ∀ token, (arrayLiteral depth token).Steady follow (Input.Mirrors follow)
  index : ∀ token left, (index depth token left).Steady follow (Input.Mirrors follow)
  hashLiteral : ∀ token, (hashLiteral depth token).Steady follow (Input.Mirrors follow)

theorem steadyAt_zero : SteadyAt follow 0 where
  statement := steady_cutOff
  letStatement := steady_cutOff
  returnStatement := steady_cutOff
  expressionStatement := steady_cutOff
  block := steady_cutOff
  expression _ := steady_cutOff
  required := steady_cutOff
  unary _ := steady_cutOff
  binary _ _ := steady_cutOff
  grouped := steady_cutOff
  conditional _ := steady_cutOff
  functionLiteral _ := steady_cutOff
  items _ _ := steady_cutOff
  call _ _ := steady_cutOff
  arrayLiteral _ := steady_cutOff
  index _ _ := steady_cutOff
  hashLiteral _ := steady_cutOff

namespace SteadyAt

variable {depth : Nat}

theorem statement_succ (h : SteadyAt follow depth) :
    (Parser.statement (depth + 1)).Steady follow (Input.Closes follow) := by
  rw [Parser.statement]
  refine steady_current.bind fun token ↦ ?_
  split
  · exact h.letStatement
  · exact h.returnStatement
  · exact steady_failed
  · exact h.expressionStatement

theorem block_succ (h : SteadyAt follow depth) :
    (Parser.block (depth + 1)).Steady follow (Input.Mirrors follow) := by
  rw [Parser.block]
  refine steady_current.bind fun token ↦ steady_advance.bind fun _ ↦ ?_
  exact Paired.remaining fun bound bound' ↦
    (h.statement.statementsToBrace bound bound' []).bind fun statements ↦ steady_pure _

theorem required_succ (h : SteadyAt follow depth) :
    (Parser.required (depth + 1)).Steady follow (Input.Mirrors follow) := by
  rw [Parser.required]
  exact (h.expression lowest).reportSilence

theorem unary_succ (h : SteadyAt follow depth) (token : Token) :
    (Parser.unary (depth + 1) token).Steady follow (Input.Mirrors follow) := by
  rw [Parser.unary]
  refine steady_advance.bind fun _ ↦ ((h.expression _).optional id).bind fun found ↦ ?_
  cases found with
  | none => exact steady_refuse _
  | some right => exact steady_pure _

theorem binary_succ (h : SteadyAt follow depth) (token : Token) (left : Expr) :
    (Parser.binary (depth + 1) token left).Steady follow (Input.Mirrors follow) := by
  rw [Parser.binary]
  refine steady_advance.bind fun _ ↦ ((h.expression _).optional id).bind fun found ↦ ?_
  cases found with
  | none => exact steady_refuse _
  | some right => exact steady_pure _

theorem grouped_succ (h : SteadyAt follow depth) :
    (Parser.grouped (depth + 1)).Steady follow (Input.Mirrors follow) := by
  rw [Parser.grouped]
  refine steady_advance.bind fun _ ↦ h.required.bind fun inner ↦ ?_
  exact (steady_expect (by decide)).bind fun _ ↦ steady_pure _

theorem index_succ (h : SteadyAt follow depth) (token : Token) (left : Expr) :
    (Parser.index (depth + 1) token left).Steady follow (Input.Mirrors follow) := by
  rw [Parser.index]
  refine steady_advance.bind fun _ ↦ h.required.bind fun place ↦ ?_
  exact (steady_expect (by decide)).bind fun _ ↦ steady_pure _

theorem call_succ (h : SteadyAt follow depth) (token : Token) (callee : Expr) :
    (Parser.call (depth + 1) token callee).Steady follow (Input.Mirrors follow) := by
  rw [Parser.call]
  exact (h.items (by decide) (by decide)).bind fun arguments ↦ steady_pure _

theorem arrayLiteral_succ (h : SteadyAt follow depth) (token : Token) :
    (Parser.arrayLiteral (depth + 1) token).Steady follow (Input.Mirrors follow) := by
  rw [Parser.arrayLiteral]
  exact (h.items (by decide) (by decide)).bind fun elements ↦ steady_pure _

variable (hfollow : (follow.headD .endOfInput).kind = .semicolon)

include hfollow

theorem letStatement_succ (h : SteadyAt follow depth) :
    (Parser.letStatement (depth + 1)).Steady follow (Input.Closes follow) := by
  rw [Parser.letStatement]
  refine steady_current.bind fun token ↦ (steady_expect (by decide)).bind fun _ ↦ ?_
  refine steady_current.bind fun name ↦ (steady_expect (by decide)).bind fun _ ↦ ?_
  refine steady_advance.bind fun _ ↦ ((h.expression _).optional id).bind fun found ↦ ?_
  cases found with
  | none => exact steady_refuse _
  | some value => exact steady_semicolon hfollow _

theorem returnStatement_succ (h : SteadyAt follow depth) :
    (Parser.returnStatement (depth + 1)).Steady follow (Input.Closes follow) := by
  rw [Parser.returnStatement]
  refine steady_current.bind fun token ↦ steady_advance.bind fun _ ↦ ?_
  refine ((h.expression _).optional id).bind fun found ↦ ?_
  cases found with
  | none => exact steady_refuse _
  | some value => exact steady_semicolon hfollow _

theorem expressionStatement_succ (h : SteadyAt follow depth) :
    (Parser.expressionStatement (depth + 1)).Steady follow (Input.Closes follow) := by
  rw [Parser.expressionStatement]
  refine steady_current.bind fun token ↦ h.required.bind fun value ↦ ?_
  exact steady_semicolon hfollow _

theorem conditional_succ (h : SteadyAt follow depth) (token : Token) :
    (Parser.conditional (depth + 1) token).Steady follow (Input.Mirrors follow) := by
  rw [Parser.conditional]
  refine (steady_expect (by decide)).bind fun _ ↦ steady_advance.bind fun _ ↦ ?_
  refine h.required.bind fun condition ↦ (steady_expect (by decide)).bind fun _ ↦ ?_
  refine (steady_expect (by decide)).bind fun _ ↦ h.block.bind fun consequence ↦ ?_
  refine (steady_accept hfollow (by decide) (by decide)).bind fun accepted ↦ ?_
  split_ifs
  · refine (steady_expect (by decide)).bind fun _ ↦ h.block.bind fun alternative ↦ ?_
    exact steady_pure _
  · exact steady_pure _

theorem steady_parameters : parameters.Steady follow (Input.Mirrors follow) := by
  rw [parameters]
  refine (steady_accept hfollow (by decide) (by decide)).bind fun accepted ↦ ?_
  split_ifs
  · exact steady_pure _
  · refine (steady_expect (by decide)).bind fun _ ↦ steady_current.bind fun token ↦ ?_
    refine Paired.remaining fun bound bound' ↦ ?_
    refine (paired_namesAfterComma hfollow bound bound' _).bind fun names ↦ ?_
    exact (steady_expect (by decide)).bind fun _ ↦ steady_pure _

theorem functionLiteral_succ (h : SteadyAt follow depth) (token : Token) :
    (Parser.functionLiteral (depth + 1) token).Steady follow (Input.Mirrors follow) := by
  rw [Parser.functionLiteral]
  refine (steady_expect (by decide)).bind fun _ ↦ (steady_parameters hfollow).bind fun names ↦ ?_
  refine (steady_expect (by decide)).bind fun _ ↦ h.block.bind fun body ↦ ?_
  exact steady_pure _

theorem items_succ (h : SteadyAt follow depth) {close : Kind} (hend : close ≠ .endOfInput)
    (hsemicolon : close ≠ .semicolon) :
    (Parser.items (depth + 1) close).Steady follow (Input.Mirrors follow) := by
  rw [Parser.items]
  refine (steady_accept hfollow hend hsemicolon).bind fun accepted ↦ ?_
  split_ifs
  · exact steady_pure _
  · refine steady_advance.bind fun _ ↦ h.required.bind fun first ↦ ?_
    refine Paired.remaining fun bound bound' ↦ ?_
    refine (h.required.itemsAfterComma hfollow (orderlyAt depth).required bound bound' _).bind
      fun found ↦ ?_
    exact (steady_expect hend).bind fun _ ↦ steady_pure _

theorem hashLiteral_succ (h : SteadyAt follow depth) (token : Token) :
    (Parser.hashLiteral (depth + 1) token).Steady follow (Input.Mirrors follow) := by
  rw [Parser.hashLiteral]
  refine Paired.remaining fun bound bound' ↦ ?_
  refine (h.required.pairsToBrace hfollow (orderlyAt depth).required bound bound' []).bind
    fun pairs ↦ ?_
  exact (steady_expect (by decide)).bind fun _ ↦ steady_pure _

omit hfollow in
theorem start_steady (h : SteadyAt follow depth) (token : Token) :
    (start depth token).Steady follow (Input.Mirrors follow) := by
  rw [start]
  split
  · exact steady_pure _
  · exact steady_integerLiteral token
  · exact steady_pure _
  · exact steady_booleanLiteral token
  · exact steady_booleanLiteral token
  · exact h.unary token
  · exact h.unary token
  · exact h.grouped
  · exact h.conditional token
  · exact h.functionLiteral token
  · exact h.arrayLiteral token
  · exact h.hashLiteral token
  · exact steady_failed

omit hfollow in
theorem extend_steady (h : SteadyAt follow depth) (left : Expr) :
    (extend depth left).Steady follow (Input.Mirrors follow) := by
  rw [extend]
  refine steady_current.bind fun token ↦ ?_
  split
  · exact h.call token left
  · exact h.index token left
  · exact h.binary token left

theorem expression_succ (h : SteadyAt follow depth) (floor : Nat) :
    (Parser.expression (depth + 1) floor).Steady follow (Input.Mirrors follow) := by
  have hexpression : Parser.expression (depth + 1) floor = (current >>= fun token ↦
      start depth token >>= fun left ↦
        remaining >>= fun bound ↦ climb (extend depth) floor bound left) :=
    funext fun input ↦ Parser.expression_succ depth floor input
  rw [hexpression]
  refine steady_current.bind fun token ↦ (h.start_steady token).bind fun left ↦ ?_
  exact Paired.remaining fun bound bound' ↦
    paired_climb hfollow h.extend_steady (orderlyAt depth).extend_orderly floor bound bound' left

theorem succ (h : SteadyAt follow depth) : SteadyAt follow (depth + 1) where
  statement := h.statement_succ
  letStatement := h.letStatement_succ hfollow
  returnStatement := h.returnStatement_succ hfollow
  expressionStatement := h.expressionStatement_succ hfollow
  block := h.block_succ
  expression := h.expression_succ hfollow
  required := h.required_succ
  unary := h.unary_succ
  binary := h.binary_succ
  grouped := h.grouped_succ
  conditional := h.conditional_succ hfollow
  functionLiteral := h.functionLiteral_succ hfollow
  items := h.items_succ hfollow
  call := h.call_succ
  arrayLiteral := h.arrayLiteral_succ
  index := h.index_succ
  hashLiteral := h.hashLiteral_succ hfollow

end SteadyAt

theorem steadyAt (hfollow : (follow.headD .endOfInput).kind = .semicolon) (depth : Nat) :
    SteadyAt follow depth := by
  induction depth with
  | zero => exact steadyAt_zero
  | succ depth ih => exact ih.succ hfollow

end MonkeyLang.Parser
