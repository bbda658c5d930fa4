import Mathlib.Tactic
import MonkeyLang.Proofs.Parser.Lookahead
import MonkeyLang.Proofs.Parser.Soundness

/-!
# Programs joined by a semicolon

Tokens that are parsed without a diagnostic may be followed by a semicolon and any other tokens: the
statements of the whole are those of the first part and then those of the second (`ofTokens_joined`).
Both parses run side by side, and each statement of the first part is read alike, because its reader
is steady and does not reach the end; a sentence of the grammar has no end token in it.
-/

set_option autoImplicit false

namespace MonkeyLang

/-! ### Sentences without an end token -/

namespace Grammar

open MonkeyLang.Parser (kind_ne_end)

/-- None of the tokens is the end token. -/
abbrev Endless (tokens : List Token) : Prop :=
  ∀ token ∈ tokens, token.kind ≠ .endOfInput

theorem endless_cons_iff {token : Token} {tokens : List Token} :
    Endless (token :: tokens) ↔ token.kind ≠ .endOfInput ∧ Endless tokens :=
  List.forall_mem_cons

theorem endless_append_iff {first second : List Token} :
    Endless (first ++ second) ↔ Endless first ∧ Endless second :=
  List.forall_mem_append

theorem endless_singleton_iff {token : Token} : Endless [token] ↔ token.kind ≠ .endOfInput :=
  List.forall_mem_singleton

theorem ne_end_of_isBinaryOperator {kind : Kind} (h : isBinaryOperator kind) :
    kind ≠ .endOfInput := by
  rintro rfl
  cases h

theorem MoreNames.endless {tokens : List Token} {names : List Identifier}
    (h : MoreNames tokens names) : Endless tokens := by
  induction h with
  | nil => exact List.forall_mem_nil _
  | cons hcomma hname _ ih =>
    exact endless_cons_iff.mpr ⟨kind_ne_end hcomma, endless_cons_iff.mpr ⟨kind_ne_end hname, ih⟩⟩

theorem Names.endless {tokens : List Token} {names : List Identifier} (h : Names tokens names) :
    Endless tokens := by
  cases h with
  | nil => exact List.forall_mem_nil _
  | cons hname hrest => exact endless_cons_iff.mpr ⟨kind_ne_end hname, hrest.endless⟩

theorem endless_bracketed {opening closing : Token} {inner : List Token} {kind kind' : Kind}
    (hopening : opening.kind = kind) (hinner : Endless inner) (hclosing : closing.kind = kind')
    (hkind : kind ≠ .endOfInput := by decide) (hkind' : kind' ≠ .endOfInput := by decide) :
    Endless (opening :: (inner ++ [closing])) := by
  rw [endless_cons_iff, endless_append_iff, endless_singleton_iff]
  exact ⟨kind_ne_end hopening hkind, hinner, kind_ne_end hclosing hkind'⟩

mutual

theorem Expression.endless :
    ∀ {tokens : List Token} {tree : Expr}, Expression tokens tree → Endless tokens
  | _, _, .chain hoperand hlinks => endless_append_iff.mpr ⟨hoperand.endless, hlinks.endless⟩

theorem Links.endless :
    ∀ {tokens : List Token} {links : List Link}, Links tokens links → Endless tokens
  | _, _, .nil => List.forall_mem_nil _
  | _, _, .cons hoperator hoperand hlinks => by
    rw [endless_cons_iff, endless_append_iff]
    exact ⟨ne_end_of_isBinaryOperator hoperator, hoperand.endless, hlinks.endless⟩

theorem Operand.endless :
    ∀ {tokens : List Token} {tree : Expr}, Operand tokens tree → Endless tokens
  | _, _, .unary hoperator hright => by
    refine endless_cons_iff.mpr ⟨?_, hright.endless⟩
    rcases hoperator with hoperator | hoperator
    · exact kind_ne_end hoperator
    · exact kind_ne_end hoperator
  | _, _, .plain hprimary hsuffixes =>
    endless_append_iff.mpr ⟨hprimary.endless, hsuffixes.endless⟩

theorem Suffixes.endless :
    ∀ {tokens : List Token} {base tree : Expr}, Suffixes tokens base tree → Endless tokens
  | _, _, _, .nil => List.forall_mem_nil _
  | _, _, _, .call hopening hitems hclosing hrest => by
    rw [endless_cons_iff, endless_append_iff, endless_cons_iff]
    exact ⟨kind_ne_end hopening, hitems.endless, kind_ne_end hclosing, hrest.endless⟩
  | _, _, _, .index hopening hplace hclosing hrest => by
    rw [endless_cons_iff, endless_append_iff, endless_cons_iff]
    exact ⟨kind_ne_end hopening, hplace.endless, kind_ne_end hclosing, hrest.endless⟩

theorem Primary.endless :
    ∀ {tokens : List Token} {tree : Expr}, Primary tokens tree → Endless tokens
  | _, _, .identifier hkind => endless_singleton_iff.mpr (kind_ne_end hkind)
  | _, _, .integer hkind _ _ => endless_singleton_iff.mpr (kind_ne_end hkind)
  | _, _, .string hkind => endless_singleton_iff.mpr (kind_ne_end hkind)
  | _, _, .boolean hkind _ => by
    rcases hkind with hkind | hkind
    · exact endless_singleton_iff.mpr (kind_ne_end hkind)
    · exact endless_singleton_iff.mpr (kind_ne_end hkind)
  | _, _, .grouped hopening htree hclosing => endless_bracketed hopening htree.endless hclosing
  | _, _, .conditional hword hopening hcondition hclosing hconsequence => by
    rw [endless_cons_iff, endless_cons_iff, endless_append_iff, endless_cons_iff]
    exact ⟨kind_ne_end hword, kind_ne_end hopening, hcondition.endless, kind_ne_end hclosing,
      hconsequence.endless⟩
  | _, _, .conditionalElse hword hopening hcondition hclosing hconsequence helse halternative => by
    rw [endless_cons_iff, endless_cons_iff, endless_append_iff, endless_cons_iff,
      endless_append_iff, endless_cons_iff]
    exact ⟨kind_ne_end hword, kind_ne_end hopening, hcondition.endless, kind_ne_end hclosing,
      hconsequence.endless, kind_ne_end helse, halternative.endless⟩
  | _, _, .function hword hopening hnames hclosing hbody => by
    rw [endless_cons_iff, endless_cons_iff, endless_append_iff, endless_cons_iff]
    exact ⟨kind_ne_end hword, kind_ne_end hopening, hnames.endless, kind_ne_end hclosing,
      hbody.endless⟩
  | _, _, .array hopening hitems hclosing => endless_bracketed hopening hitems.endless hclosing
  | _, _, .hash hopening hpairs hclosing => endless_bracketed hopening hpairs.endless hclosing

theorem Items.endless :
    ∀ {tokens : List Token} {items : List Expr}, Items tokens items → Endless tokens
  | _, _, .nil => List.forall_mem_nil _
  | _, _, .cons hitem hrest => endless_append_iff.mpr ⟨hitem.endless, hrest.endless⟩

theorem MoreItems.endless :
    ∀ {tokens : List Token} {items : List Expr}, MoreItems tokens items → Endless tokens
  | _, _, .nil => List.forall_mem_nil _
  | _, _, .cons hcomma hitem hrest => by
    rw [endless_cons_iff, endless_append_iff]
    exact ⟨kind_ne_end hcomma, hitem.endless, hrest.endless⟩

theorem Pairs.endless :
    ∀ {tokens : List Token} {pairs : List (Expr × Expr)}, Pairs tokens pairs → Endless tokens
  | _, _, .nil => List.forall_mem_nil _
  | _, _, .last hkey hcolon hvalue => by
    rw [endless_append_iff, endless_cons_iff]
    exact ⟨hkey.endless, kind_ne_end hcolon, hvalue.endless⟩
  | _, _, .cons hkey hcolon hvalue hcomma hrest => by
    rw [endless_append_iff, endless_cons_iff, endless_append_iff, endless_cons_iff]
    exact ⟨hkey.endless, kind_ne_end hcolon, hvalue.endless, kind_ne_end hcomma, hrest.endless⟩

theorem Block.endless :
    ∀ {tokens : List Token} {tree : MonkeyLang.Block}, Block tokens tree → Endless tokens
  | _, _, .mk hopening hstatements hclosing =>
    endless_bracketed hopening hstatements.endless hclosing

theorem Statement.endless :
    ∀ {tokens : List Token} {tree : Stmt}, Statement tokens tree → Endless tokens
  | _, _, .binding hword hname hassign hvalue => by
    rw [endless_cons_iff, endless_cons_iff, endless_cons_iff]
    exact ⟨kind_ne_end hword, kind_ne_end hname, kind_ne_end hassign, hvalue.endless⟩
  | _, _, .returning hword hvalue => endless_cons_iff.mpr ⟨kind_ne_end hword, hvalue.endless⟩
  | _, _, .expression htree => htree.endless

theorem Statements.endless :
    ∀ {tokens : List Token} {trees : List Stmt}, Statements tokens trees → Endless tokens
  | _, _, .nil => List.forall_mem_nil _
  | _, _, .empty hsemicolon hrest =>
    endless_cons_iff.mpr ⟨kind_ne_end hsemicolon, hrest.endless⟩
  | _, _, .closed hstatement hsemicolon hrest => by
    rw [endless_append_iff, endless_cons_iff]
    exact ⟨hstatement.endless, kind_ne_end hsemicolon, hrest.endless⟩
  | _, _, .unclosed hstatement _ hrest =>
    endless_append_iff.mpr ⟨hstatement.endless, hrest.endless⟩

end

end Grammar

namespace Parser

open Grammar

/-! ### Programs -/

section Programs

variable {limit : Nat} {input other : Input}

/-- Each statement and the token behind it take at least one token. -/
theorem Input.Precedes.length_advance_le {rest : Input} {few : Nat}
    (h : input.Precedes rest) (hfew : input.tokens.length ≤ few + 1) :
    rest.advance.tokens.length ≤ few := by
  have hlength := h.tokens.length_le
  rw [Input.length_advance]
  omega

/-- Without a new diagnostic they are the same ones. -/
theorem Input.Precedes.problems_eq {rest : Input} (h : input.Precedes rest)
    (hsize : rest.problems.size ≤ input.problems.size) : rest.problems = input.problems := by
  rw [← Array.length_toList, ← Array.length_toList] at hsize
  exact (Array.toList_inj.mp (h.problems.eq_of_length_le hsize)).symm

/-- The statements do not depend on the bound, as long as the tokens are not more. -/
theorem statements_eq_of_bounds (bound bound' : List Token) (done : List Stmt)
    (hbound : input.tokens.length ≤ bound.length) (hbound' : input.tokens.length ≤ bound'.length) :
    statements limit bound done input = statements limit bound' done input := by
  induction bound generalizing bound' done input with
  | nil =>
    have hnil := List.eq_nil_of_length_eq_zero (Nat.le_zero.mp hbound)
    have hend : input.current.kind = .endOfInput := by
      rw [Input.current, hnil]
      rfl
    rw [statements_of_end limit _ done hend, statements_of_end limit _ done hend]
  | cons first bound ih =>
    by_cases hend : input.current.kind = .endOfInput
    · rw [statements_of_end limit _ done hend, statements_of_end limit _ done hend]
    cases bound' with
    | nil =>
      rw [Input.tokens_eq_cons hend] at hbound'
      cases hbound'
    | cons first' bound' =>
      rw [statements_cons limit _ _ done hend, statements_cons limit _ _ done hend]
      have hprecedes := (orderlyAt limit).statement input
      cases houtcome : statement limit input with
      | cutOff rest => rfl
      | done tree rest =>
        rw [houtcome] at hprecedes
        exact ih bound' _ (hprecedes.length_advance_le hbound)
          (hprecedes.length_advance_le hbound')
      | failed rest =>
        rw [houtcome] at hprecedes
        exact ih bound' _ (hprecedes.length_advance_le hbound)
          (hprecedes.length_advance_le hbound')

/-- The statements found are put in front of those that were there. -/
theorem statements_append (bound : List Token) (done : List Stmt) :
    statements limit bound done input =
      ((statements limit bound [] input).1 ++ done, (statements limit bound [] input).2) := by
  induction bound generalizing done input with
  | nil => rfl
  | cons first bound ih =>
    by_cases hend : input.current.kind = .endOfInput
    · rw [statements_of_end limit _ done hend, statements_of_end limit _ [] hend]
      rfl
    · rw [statements_cons limit _ _ done hend, statements_cons limit _ _ [] hend]
      cases statement limit input with
      | done tree rest =>
        dsimp only
        rw [ih (tree :: done), ih [tree], List.append_assoc]
        rfl
      | failed rest => exact ih done
      | cutOff rest => rfl

variable {semicolon : Token} {after : List Token}

/-- The inputs in front of a statement: where the first one has come to its end, the second one is
at the semicolon or just behind it. -/
def Input.Joins (semicolon : Token) (after : List Token) (input other : Input) : Prop :=
  other.problems = input.problems ∧
    ((∃ common, Endless common ∧ input.tokens = common ++ [.endOfInput] ∧
        other.tokens = common ++ semicolon :: after) ∨
      (input.tokens = [.endOfInput] ∧ other.tokens = after))

/-- A statement that is read without a diagnostic does not reach the end. -/
theorem not_spoilt_of_statement {rest : Input} {tree : Stmt}
    (hlast : ∃ common, input.tokens = common ++ [.endOfInput])
    (hdone : statement limit input = .done tree rest)
    (hclean : rest.problems.size ≤ input.problems.size) :
    ¬ rest.Spoilt input.problems.size := by
  rintro (hcount | hlength)
  · omega
  obtain ⟨common, hcommon⟩ := hlast
  obtain ⟨read, hread, hfinished⟩ := (soundAt limit).statement hdone hclean
  have hnil : rest.advance.tokens = [] := by
    refine List.eq_nil_of_length_eq_zero ?_
    rw [Input.length_advance]
    omega
  have hendless : Endless input.tokens := by
    rcases hfinished with ⟨semicolon, hsemicolon, hafter⟩ | ⟨hafter, -⟩
    · rw [Input.After] at hafter
      rw [hafter, hnil, List.append_nil, endless_append_iff, endless_singleton_iff]
      exact ⟨hread.endless, kind_ne_end hsemicolon⟩
    · rw [Input.After] at hafter
      rw [hafter, hnil, List.append_nil]
      exact hread.endless
  rw [hcommon, endless_append_iff, endless_singleton_iff] at hendless
  exact hendless.2 rfl

/-- Where the first input has come to its end, the second one has at most an empty statement in
front of what follows. -/
theorem statements_at_joint (hsemicolon : semicolon.kind = .semicolon) (bound : List Token)
    (done : List Stmt) (hjoins : input.Joins semicolon after other)
    (hend : input.current.kind = .endOfInput) (hbound : other.tokens.length ≤ bound.length) :
    statements (limit + 1) bound done other =
      statements (limit + 1) after done ⟨after, input.problems⟩ := by
  obtain ⟨tokens, problems⟩ := other
  obtain ⟨hproblems, ⟨common, hendless, hinput, rfl⟩ | ⟨-, rfl⟩⟩ := hjoins
  all_goals rw [← hproblems]
  · cases common with
    | cons first common =>
      rw [Input.current, hinput] at hend
      exact absurd hend (hendless first (.head _))
    | nil =>
      cases bound with
      | nil => cases hbound
      | cons first bound =>
        have hcurrent : (Input.current ⟨semicolon :: after, problems⟩).kind = .semicolon :=
          hsemicolon
        have hempty : statement (limit + 1) ⟨semicolon :: after, problems⟩ =
            .failed ⟨semicolon :: after, problems⟩ := by
          rw [statement_succ_apply, hcurrent]
        rw [List.nil_append, statements_cons _ _ _ _ (kind_ne_end hcurrent), hempty]
        exact statements_eq_of_bounds bound after done (Nat.le_of_succ_le_succ hbound) le_rfl
  · exact statements_eq_of_bounds bound tokens done hbound le_rfl

/-- The inputs behind a statement are in front of the next one. -/
theorem Input.Closes.joins {rest rest' : Input} (h : rest.Closes (semicolon :: after) rest')
    {common : List Token} (hendless : Endless common)
    (hsuffix : rest.tokens <:+ common ++ [.endOfInput]) :
    rest.advance.Joins semicolon after rest'.advance := by
  rcases h with ⟨⟨left, hne, htokens, htokens'⟩, hproblems⟩ | ⟨hend, hfollow, hproblems⟩
  · refine ⟨hproblems, .inl ⟨left.tail, ?_, ?_, ?_⟩⟩
    · obtain ⟨before, hbefore⟩ := hsuffix
      rw [htokens, ← List.append_assoc] at hbefore
      obtain rfl := List.append_cancel_right hbefore
      exact fun token hmem ↦ (endless_append_iff.mp hendless).2 token (List.mem_of_mem_tail hmem)
    · rw [Input.advance, htokens, List.tail_append_of_ne_nil hne]
    · rw [Input.advance, htokens', List.tail_append_of_ne_nil hne]
  · refine ⟨hproblems, .inr ⟨hend, ?_⟩⟩
    rw [Input.advance, hfollow]
    rfl

theorem Input.Joins.mirrors (h : input.Joins semicolon after other)
    (hend : input.current.kind ≠ .endOfInput) :
    input.Mirrors (semicolon :: after) other ∧
      ∃ common, Endless common ∧ input.tokens = common ++ [.endOfInput] := by
  obtain ⟨hproblems, ⟨common, hendless, hinput, hother⟩ | ⟨hinput, -⟩⟩ := h
  · refine ⟨⟨⟨common, ?_, hinput, hother⟩, hproblems⟩, common, hendless, hinput⟩
    rintro rfl
    rw [Input.current, hinput] at hend
    exact hend rfl
  · rw [Input.current, hinput] at hend
    exact absurd rfl hend

/-- A statement that is read without a diagnostic is read alike in front of the semicolon. -/
theorem statement_joined (hsemicolon : semicolon.kind = .semicolon)
    (hjoins : input.Joins semicolon after other) (hend : input.current.kind ≠ .endOfInput)
    {tree : Stmt} {rest : Input} (hdone : statement limit input = .done tree rest)
    (hclean : rest.problems.size ≤ input.problems.size) :
    ∃ rest', statement limit other = .done tree rest' ∧
      rest.advance.Joins semicolon after rest'.advance := by
  obtain ⟨hmirrors, common, hendless, hinput⟩ := hjoins.mirrors hend
  have hsteady : SteadyAt (semicolon :: after) limit :=
    steadyAt (show (List.headD (semicolon :: after) _).kind = _ from hsemicolon) limit
  have houtcomes := hsteady.statement.mirrors hmirrors
  have hsuffix := (hsteady.statement.forward.of_done hdone).tokens
  rw [hdone] at houtcomes
  rcases houtcomes with hspoilt | ⟨rest', hother, hcloses⟩
  · exact absurd hspoilt (not_spoilt_of_statement ⟨common, hinput⟩ hdone hclean)
  · exact ⟨rest', hother, hcloses.joins hendless (hinput ▸ hsuffix)⟩

theorem empty_statement_joined (hjoins : input.Joins semicolon after other)
    (hkind : input.current.kind = .semicolon) :
    statement (limit + 1) other = .failed other ∧
      input.advance.Joins semicolon after other.advance := by
  obtain ⟨hmirrors, common, hendless, hinput⟩ := hjoins.mirrors (kind_ne_end hkind)
  refine ⟨?_, Input.Closes.joins (.inl hmirrors) hendless (hinput ▸ List.suffix_refl _)⟩
  rw [statement_succ_apply, hmirrors.current_eq, hkind]

/-- Behind the statements up to the end of the first input, the second one goes on behind the
semicolon. -/
theorem statements_joined (hsemicolon : semicolon.kind = .semicolon) (bound bound' : List Token)
    (done : List Stmt) (hjoins : input.Joins semicolon after other)
    (hbound : input.tokens.length ≤ bound.length) (hbound' : other.tokens.length ≤ bound'.length)
    (hclean : (statements (limit + 1) bound done input).2.problems.size ≤ input.problems.size) :
    statements (limit + 1) bound' done other =
      statements (limit + 1) after (statements (limit + 1) bound done input).1
        ⟨after, input.problems⟩ := by
  induction bound generalizing bound' done input other with
  | nil =>
    have hend : input.current.kind = .endOfInput := by
      rw [Input.current, List.eq_nil_of_length_eq_zero (Nat.le_zero.mp hbound)]
      rfl
    exact statements_at_joint hsemicolon bound' done hjoins hend hbound'
  | cons first bound ih =>
    by_cases hend : input.current.kind = .endOfInput
    · rw [statements_of_end _ _ _ hend]
      exact statements_at_joint hsemicolon bound' done hjoins hend hbound'
    have hmirrors := (hjoins.mirrors hend).1
    have hend' : other.current.kind ≠ .endOfInput := by rwa [hmirrors.current_eq]
    cases bound' with
    | nil => exact absurd hbound' (not_le.mpr hmirrors.lengths.2)
    | cons first' bound' =>
      rw [statements_cons _ _ _ _ hend] at hclean ⊢
      rw [statements_cons _ _ _ _ hend']
      have hprecedes := (orderlyAt (limit + 1)).statement input
      cases houtcome : statement (limit + 1) input with
      | cutOff rest =>
        rw [houtcome] at hclean hprecedes
        have hle := hprecedes.size_le
        rw [Input.problems_report, Array.size_push] at hclean
        exact absurd (hclean.trans hle) (Nat.not_succ_le_self _)
      | done tree rest =>
        rw [houtcome] at hclean hprecedes
        have hsize : rest.problems.size ≤ input.problems.size :=
          (statements_forward _ _ _ rest.advance).size_le.trans hclean
        obtain ⟨rest', hother, hnext⟩ := statement_joined hsemicolon hjoins hend houtcome hsize
        have hprecedes' := (orderlyAt (limit + 1)).statement.of_done hother
        rw [hother, ← Input.Precedes.problems_eq hprecedes hsize]
        exact ih bound' _ hnext (hprecedes.length_advance_le hbound)
          (hprecedes'.length_advance_le hbound') (hclean.trans hprecedes.size_le)
      | failed rest =>
        rw [houtcome] at hclean hprecedes
        have hsize : rest.problems.size ≤ input.problems.size :=
          (statements_forward _ _ _ rest.advance).size_le.trans hclean
        obtain ⟨rfl, hkind⟩ := SoundAt.empty_statement houtcome hsize
        obtain ⟨hother, hnext⟩ := empty_statement_joined hjoins hkind
        rw [hother]
        exact ih bound' _ hnext (hprecedes.length_advance_le hbound)
          ((Input.Precedes.refl other).length_advance_le hbound') hclean

end Programs

/-- Tokens that are parsed without a diagnostic, a semicolon and other tokens are parsed as the
statements of the first and then those of the second. -/
theorem ofTokens_joined (limit : Nat) {tokens after : List Token} {semicolon : Token}
    (hendless : Endless tokens) (hsemicolon : semicolon.kind = .semicolon)
    (hclean : (Program.ofTokens (limit + 1) (tokens ++ [.endOfInput])).problems = []) :
    Program.ofTokens (limit + 1) (tokens ++ semicolon :: after) =
      ⟨⟨(Program.ofTokens (limit + 1) (tokens ++ [.endOfInput])).program.statements ++
          (Program.ofTokens (limit + 1) after).program.statements⟩,
        (Program.ofTokens (limit + 1) after).problems⟩ := by
  have hjoins : Input.Joins semicolon after ⟨tokens ++ [.endOfInput], #[]⟩
      ⟨tokens ++ semicolon :: after, #[]⟩ :=
    ⟨rfl, .inl ⟨tokens, hendless, rfl, rfl⟩⟩
  have hsize : (statements (limit + 1) (tokens ++ [.endOfInput]) []
      ⟨tokens ++ [.endOfInput], #[]⟩).2.problems.size ≤ 0 := by
    rw [← Array.length_toList, show Array.toList _ = [] from hclean]
    exact le_rfl
  have hstatements := (statements_joined hsemicolon _ _ [] hjoins le_rfl le_rfl hsize).trans
    (statements_append after _)
  simp only [Program.ofTokens]
  rw [hstatements, List.reverse_append]

end Parser

end MonkeyLang
