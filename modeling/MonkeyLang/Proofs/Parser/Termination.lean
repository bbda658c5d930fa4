import Mathlib.Tactic
import MonkeyLang.Proofs.Parser.DepthLimit

/-!
# Parsing ends

The loops of the parser are bounded by the tokens that are left when they start. This module shows
that the bound never ends a loop. A *round* is what a loop does once: it ends the loop with a value,
goes on with a new state, fails, or is cut off. A round that goes on has taken a token
(`Progresses`), so a loop whose rounds are repeated for as long as they go on (`Repeats`) comes to
an end, and the bounded loop is that one (`Unrolls`).

A scanner gives end tokens for ever after the first one. In such an input no round goes on once the
current token is the end token: a loop that looks at the next token finds the end token there too,
and a pair of a hash needs a key.

Together with the number of nested calls that is enough for a number of tokens this says that
parsing ends, for every list of tokens, at the end token.
-/

set_option autoImplicit false

namespace MonkeyLang

namespace Parser

variable {α β σ : Type}

/-! ### The end of the input -/

/-- Behind an end token there is no other token. -/
def Input.EndLast (input : Input) : Prop :=
  input.tokens.Pairwise fun earlier later ↦
    earlier.kind = .endOfInput → later.kind = .endOfInput

theorem Input.Precedes.endLast {input rest : Input} (h : input.Precedes rest)
    (hlast : input.EndLast) : rest.EndLast :=
  List.Pairwise.sublist h.tokens.sublist hlast

/-- At the end token only end tokens are left. -/
theorem Input.kind_eq_of_end {input : Input} (hlast : input.EndLast)
    (hend : input.current.kind = .endOfInput) :
    ∀ token ∈ input.tokens, token.kind = .endOfInput := by
  obtain ⟨tokens, problems⟩ := input
  cases tokens with
  | nil => exact List.forall_mem_nil _
  | cons first rest =>
    have hrest : ∀ later ∈ rest, first.kind = .endOfInput → later.kind = .endOfInput :=
      fun _ hmem ↦ List.rel_of_pairwise_cons hlast hmem
    exact List.forall_mem_cons.mpr ⟨hend, fun later hmem ↦ hrest later hmem hend⟩

theorem Input.kind_peek_of_end {input : Input} (hlast : input.EndLast)
    (hend : input.current.kind = .endOfInput) : input.peek.kind = .endOfInput := by
  have htokens := Input.kind_eq_of_end hlast hend
  obtain ⟨tokens, problems⟩ := input
  match tokens with
  | [] | [_] => rfl
  | _ :: second :: _ => exact htokens second (.tail _ (.head _))

theorem Input.length_pos {input : Input} (hkind : input.current.kind ≠ .endOfInput) :
    0 < input.tokens.length := by
  rw [input.tokens_eq_cons hkind]
  exact Nat.succ_pos _

/-- If the next token is not the end token, there are two tokens at least. -/
theorem Input.one_lt_length {input : Input} (hkind : input.peek.kind ≠ .endOfInput) :
    1 < input.tokens.length := by
  rw [input.peek_eq_current_advance] at hkind
  have hpos := Input.length_pos hkind
  rw [input.length_advance] at hpos
  omega

/-! ### Rounds -/

/-- What a round of a loop comes to. -/
inductive Round (σ α : Type) where
  | ends (value : α)
  | goesOn (state : σ)

/-- What follows a round. -/
def Round.next (loop : σ → Attempt α) : Round σ α → Attempt α
  | .ends value => pure value
  | .goesOn state => loop state

/-- Rounds are repeated for as long as they go on, and this comes to an end with the outcome. -/
inductive Repeats (round : σ → Attempt (Round σ α)) : σ → Input → Outcome α → Prop
  | ends {state : σ} {input rest : Input} {value : α}
    (h : round state input = .done (.ends value) rest) :
    Repeats round state input (.done value rest)
  | failed {state : σ} {input rest : Input} (h : round state input = .failed rest) :
    Repeats round state input (.failed rest)
  | cutOff {state : σ} {input rest : Input} (h : round state input = .cutOff rest) :
    Repeats round state input (.cutOff rest)
  | goesOn {state next : σ} {input middle : Input} {outcome : Outcome α}
    (h : round state input = .done (.goesOn next) middle)
    (hrest : Repeats round next middle outcome) : Repeats round state input outcome

/-- A round that goes on has taken a token, and none goes on at the end token. -/
structure Progresses (round : σ → Attempt (Round σ α)) : Prop where
  takes : ∀ {state next : σ} {input rest : Input},
    round state input = .done (.goesOn next) rest → rest.tokens.length < input.tokens.length
  stops : ∀ {state next : σ} {input rest : Input}, input.EndLast →
    input.current.kind = .endOfInput → round state input ≠ .done (.goesOn next) rest

/-- The loop does one round after the other, and where it may be started, the tokens that are left
are a bound that it never comes to. -/
structure Unrolls (starts : Input → Prop) (round : σ → Attempt (Round σ α))
    (loop : List Token → σ → Attempt α) : Prop where
  progresses : Progresses round
  step : ∀ first bound state, loop (first :: bound) state = round state >>= Round.next (loop bound)
  unbounded : ∀ state input, starts input →
    Repeats round state input (loop input.tokens state input)

section Bounds

variable {round : σ → Attempt (Round σ α)} {loop : List Token → σ → Attempt α}
  (hstep : ∀ first bound state,
    loop (first :: bound) state = round state >>= Round.next (loop bound))

include hstep

/-- A loop is not ended by its bound if each round that goes on makes a measure smaller, and the
bound is not below the measure at the start. -/
theorem repeats_of_measure_le {measure : Input → Nat}
    (hless : ∀ {state next input rest}, round state input = .done (.goesOn next) rest →
      measure rest < measure input)
    (hspent : ∀ state input, measure input = 0 →
      Repeats round state input (loop [] state input))
    {bound : List Token} {state : σ} {input : Input} (hbound : measure input ≤ bound.length) :
    Repeats round state input (loop bound state input) := by
  induction bound generalizing state input with
  | nil => exact hspent state input (Nat.le_zero.mp hbound)
  | cons first bound ih =>
    rw [hstep, bind_apply]
    cases houtcome : round state input with
    | failed rest => exact .failed houtcome
    | cutOff rest => exact .cutOff houtcome
    | done found middle =>
      cases found with
      | ends value => exact .ends houtcome
      | goesOn next =>
        have hsmaller := hless houtcome
        rw [List.length_cons] at hbound
        exact .goesOn houtcome (ih (by omega))

/-- The tokens that are left are enough, if the loop also does without a bound where none are. -/
theorem Progresses.unrolls (h : Progresses round)
    (hspent : ∀ state problems,
      Repeats round state ⟨[], problems⟩ (loop [] state ⟨[], problems⟩)) :
    Unrolls (fun _ ↦ True) round loop := by
  refine ⟨h, hstep, fun state input _ ↦ ?_⟩
  refine repeats_of_measure_le hstep h.takes (fun state input hzero ↦ ?_) le_rfl
  obtain ⟨tokens, problems⟩ := input
  obtain rfl := List.eq_nil_of_length_eq_zero hzero
  exact hspent state problems

end Bounds

theorem ite_bind (condition : Prop) [Decidable condition] (yes no : Attempt α)
    (next : α → Attempt β) :
    (if condition then yes else no) >>= next =
      if condition then yes >>= next else no >>= next := by
  split_ifs <;> rfl

/-! ### The rounds of the loops -/

/-- A statement of a block, unless the block ends there. -/
def blockRound (statement : Attempt Stmt) (done : List Stmt) :
    Attempt (Round (List Stmt) (List Stmt)) := do
  match (← current).kind with
  | .rbrace => return .ends done
  | .endOfInput => refuse (.unexpectedToken .rbrace .endOfInput)
  | _ =>
    let found ← statement.optional
    advance
    return .goesOn (found.toList ++ done)

/-- One more name, if a comma follows. -/
def nameRound (done : List Identifier) :
    Attempt (Round (List Identifier) (List Identifier)) := do
  if ← accept .comma then
    expect .identifier
    let token ← current
    return .goesOn (⟨token.origin, token.literal⟩ :: done)
  else return .ends done

/-- One more expression, if a comma follows. -/
def itemRound (item : Attempt Expr) (done : List Expr) :
    Attempt (Round (List Expr) (List Expr)) := do
  if ← accept .comma then
    advance
    let next ← item
    return .goesOn (next :: done)
  else return .ends done

/-- A pair of a hash, unless its closing brace follows. -/
def pairRound (item : Attempt Expr) (done : List (Expr × Expr)) :
    Attempt (Round (List (Expr × Expr)) (List (Expr × Expr))) := do
  if (← peekKind) = .rbrace then return .ends done
  advance
  let key ← item
  expect .colon
  advance
  let value ← item
  if (← peekKind) ≠ .rbrace then expect .comma
  return .goesOn ((key, value) :: done)

/-- One more operator with what it applies to, if one that binds tighter than `floor` follows. -/
def operatorRound (extend : Expr → Attempt Expr) (floor : Nat) (left : Expr) :
    Attempt (Round Expr Expr) := do
  if floor < precedence (← peekKind) then
    advance
    let left ← extend left
    return .goesOn left
  else return .ends left

/-- A statement of a program, unless the program ends there. -/
def programRound (limit : Nat) (done : List Stmt) : Attempt (Round (List Stmt) (List Stmt)) := do
  if (← current).kind = .endOfInput then return .ends done
  else
    let found ← (statement limit).optional
    advance
    return .goesOn (found.toList ++ done)

theorem statementsToBrace_step (statement : Attempt Stmt) (first : Token) (bound : List Token)
    (done : List Stmt) :
    statementsToBrace statement (first :: bound) done =
      blockRound statement done >>= Round.next (statementsToBrace statement bound) := by
  rw [statementsToBrace, blockRound, bind_assoc]
  refine congrArg _ (funext fun token ↦ ?_)
  cases token.kind with
  | rbrace | endOfInput => rfl
  | _ =>
    simp only [bind_assoc]
    rfl

theorem namesAfterComma_step (first : Token) (bound : List Token) (done : List Identifier) :
    namesAfterComma (first :: bound) done =
      nameRound done >>= Round.next (namesAfterComma bound) := by
  rw [namesAfterComma, nameRound, bind_assoc]
  refine congrArg _ (funext fun accepted ↦ ?_)
  cases accepted with
  | false => rfl
  | true =>
    simp only [if_true, bind_assoc]
    rfl

theorem itemsAfterComma_step (item : Attempt Expr) (first : Token) (bound : List Token)
    (done : List Expr) :
    itemsAfterComma item (first :: bound) done =
      itemRound item done >>= Round.next (itemsAfterComma item bound) := by
  rw [itemsAfterComma, itemRound, bind_assoc]
  refine congrArg _ (funext fun accepted ↦ ?_)
  cases accepted with
  | false => rfl
  | true =>
    simp only [if_true, bind_assoc]
    rfl

theorem pairsToBrace_step (item : Attempt Expr) (first : Token) (bound : List Token)
    (done : List (Expr × Expr)) :
    pairsToBrace item (first :: bound) done =
      pairRound item done >>= Round.next (pairsToBrace item bound) := by
  rw [pairsToBrace, pairRound, bind_assoc]
  refine congrArg _ (funext fun kind ↦ ?_)
  by_cases hbrace : kind = .rbrace
  · rw [if_pos hbrace, if_pos hbrace]
    rfl
  · rw [if_neg hbrace, if_neg hbrace]
    simp only [bind_assoc, ite_bind]
    rfl

theorem climb_step (extend : Expr → Attempt Expr) (floor : Nat) (first : Token)
    (bound : List Token) (left : Expr) :
    climb extend floor (first :: bound) left =
      operatorRound extend floor left >>= Round.next (climb extend floor bound) := by
  rw [climb, operatorRound, bind_assoc]
  refine congrArg _ (funext fun kind ↦ ?_)
  by_cases htight : floor < precedence kind
  · rw [if_pos htight, if_pos htight]
    simp only [bind_assoc]
    rfl
  · rw [if_neg htight, if_neg htight]
    rfl

/-! ### Progress -/

/-- A round that moves on behind something that starts at a token. -/
theorem progresses_of_current {round : σ → Attempt (Round σ α)}
    (h : ∀ {state next : σ} {input rest : Input}, round state input = .done (.goesOn next) rest →
      input.current.kind ≠ .endOfInput ∧ ∃ middle, input.Precedes middle ∧ rest = middle.advance) :
    Progresses round where
  takes hround := by
    obtain ⟨hkind, middle, hprecedes, rfl⟩ := h hround
    have hpos := Input.length_pos hkind
    have hle := hprecedes.tokens.length_le
    rw [Input.length_advance]
    omega
  stops _ hend hround := (h hround).1 hend

/-- A round that moves on to the next token. -/
theorem progresses_of_peek {round : σ → Attempt (Round σ α)}
    (h : ∀ {state next : σ} {input rest : Input}, round state input = .done (.goesOn next) rest →
      input.peek.kind ≠ .endOfInput ∧ input.advance.Precedes rest) :
    Progresses round where
  takes hround := by
    obtain ⟨hkind, hprecedes⟩ := h hround
    have hlength := Input.one_lt_length hkind
    have hle := hprecedes.tokens.length_le
    rw [Input.length_advance] at hle
    omega
  stops hlast hend hround := (h hround).1 (Input.kind_peek_of_end hlast hend)

theorem blockRound_apply (statement : Attempt Stmt) (done : List Stmt) (input : Input) :
    blockRound statement done input =
      match input.current.kind with
      | .rbrace => .done (.ends done) input
      | .endOfInput => .failed (input.report (.unexpectedToken .rbrace .endOfInput))
      | _ =>
        (statement.optional >>= fun found ↦ advance >>= fun _ ↦
          pure (.goesOn (found.toList ++ done))) input := by
  rw [blockRound, current_bind_apply]
  cases input.current.kind <;> rfl

theorem progresses_blockRound {statement : Attempt Stmt} (h : statement.Forward) :
    Progresses (blockRound statement) := by
  refine progresses_of_current fun hround ↦ ?_
  rw [blockRound_apply] at hround
  split at hround
  · cases hround
  · cases hround
  · rename_i hkind
    obtain ⟨found, middle, hfound, hrest⟩ := bind_eq_done_iff.mp hround
    rw [advance_bind_apply] at hrest
    exact ⟨hkind, middle, h.optional.forward.of_done hfound, (pure_eq_done_iff.mp hrest).2.symm⟩

theorem progresses_programRound (limit : Nat) : Progresses (programRound limit) := by
  have hforward := (orderlyAt limit).statement.optional.forward
  refine progresses_of_current fun hround ↦ ?_
  rw [programRound, current_bind_apply] at hround
  split_ifs at hround with hend
  · cases hround
  · obtain ⟨found, middle, hfound, hrest⟩ := bind_eq_done_iff.mp hround
    rw [advance_bind_apply] at hrest
    exact ⟨hend, middle, hforward.of_done hfound, (pure_eq_done_iff.mp hrest).2.symm⟩

theorem progresses_nameRound : Progresses nameRound := by
  refine progresses_of_peek fun hround ↦ ?_
  rw [nameRound] at hround
  rcases accept_ite_eq_done_iff.mp hround with ⟨hcomma, hyes⟩ | ⟨-, hno⟩
  · obtain ⟨-, hrest⟩ := expect_bind_eq_done_iff.mp hyes
    rw [current_bind_apply] at hrest
    obtain ⟨-, rfl⟩ := pure_eq_done_iff.mp hrest
    exact ⟨by rw [hcomma]; decide, .advance _⟩
  · cases hno

theorem progresses_itemRound {item : Attempt Expr} (h : item.Forward) :
    Progresses (itemRound item) := by
  refine progresses_of_peek fun hround ↦ ?_
  rw [itemRound] at hround
  rcases accept_ite_eq_done_iff.mp hround with ⟨hcomma, hyes⟩ | ⟨-, hno⟩
  · rw [advance_bind_apply] at hyes
    obtain ⟨found, middle, hfound, hrest⟩ := bind_eq_done_iff.mp hyes
    obtain ⟨-, rfl⟩ := pure_eq_done_iff.mp hrest
    exact ⟨by rw [hcomma]; decide, (Input.Precedes.advance _).trans (h.of_done hfound)⟩
  · cases hno

/-- The end token binds no tighter than anything. -/
theorem kind_ne_end_of_lt_precedence {floor : Nat} (hfloor : lowest ≤ floor) {kind : Kind}
    (htight : floor < precedence kind) : kind ≠ .endOfInput := by
  rintro rfl
  exact absurd htight (Nat.not_lt.mpr hfloor)

theorem progresses_operatorRound {extend : Expr → Attempt Expr}
    (h : ∀ left, (extend left).Forward) {floor : Nat} (hfloor : lowest ≤ floor) :
    Progresses (operatorRound extend floor) := by
  refine progresses_of_peek fun {left _ _ _} hround ↦ ?_
  rw [operatorRound, peekKind_bind_apply] at hround
  split_ifs at hround with htight
  · rw [advance_bind_apply] at hround
    obtain ⟨found, middle, hfound, hrest⟩ := bind_eq_done_iff.mp hround
    obtain ⟨-, rfl⟩ := pure_eq_done_iff.mp hrest
    exact ⟨kind_ne_end_of_lt_precedence hfloor htight, (h left).of_done hfound⟩
  · cases hround

/-- A pair has a key, a colon and a value. -/
theorem pairRound_eq_goesOn {item : Attempt Expr} (h : item.Forward)
    {done next : List (Expr × Expr)} {input rest : Input}
    (hround : pairRound item done input = .done (.goesOn next) rest) :
    ∃ key middle, item input.advance = .done key middle ∧ middle.peek.kind = .colon ∧
      middle.advance.advance.Precedes rest := by
  rw [pairRound, peekKind_bind_apply] at hround
  split_ifs at hround
  · cases hround
  · rw [advance_bind_apply] at hround
    obtain ⟨key, middle, hkey, hround⟩ := bind_eq_done_iff.mp hround
    obtain ⟨hcolon, hround⟩ := expect_bind_eq_done_iff.mp hround
    rw [advance_bind_apply] at hround
    obtain ⟨value, last, hvalue, hround⟩ := bind_eq_done_iff.mp hround
    rw [peekKind_bind_apply] at hround
    refine ⟨key, middle, hkey, hcolon, (h.of_done hvalue).trans ?_⟩
    split_ifs at hround
    · obtain ⟨-, hrest⟩ := expect_bind_eq_done_iff.mp hround
      obtain ⟨-, rfl⟩ := pure_eq_done_iff.mp hrest
      exact .advance last
    · obtain ⟨-, rfl⟩ := pure_eq_done_iff.mp hround
      exact .refl last

theorem length_add_two_le_of_pairRound {item : Attempt Expr} (h : item.Forward)
    {done next : List (Expr × Expr)} {input rest : Input}
    (hround : pairRound item done input = .done (.goesOn next) rest) :
    rest.tokens.length + 2 ≤ input.tokens.length := by
  obtain ⟨key, middle, hkey, hcolon, hrest⟩ := pairRound_eq_goesOn h hround
  have hlength : 1 < middle.tokens.length := Input.one_lt_length (by rw [hcolon]; decide)
  have hmiddle := (h.of_done hkey).tokens.length_le
  have hlast := hrest.tokens.length_le
  rw [Input.length_advance] at hmiddle
  rw [Input.length_advance, Input.length_advance] at hlast
  omega

/-- At the end token there is no expression. -/
theorem required_ne_done {depth : Nat} {input rest : Input} {value : Expr}
    (hend : input.current.kind = .endOfInput) : required depth input ≠ .done value rest := by
  intro hdone
  match depth with
  | 0 => cases hdone
  | 1 =>
    rw [required, reportSilence_eq_done_iff] at hdone
    cases hdone
  | depth + 2 =>
    rw [required, reportSilence_eq_done_iff, expression_succ] at hdone
    obtain ⟨left, middle, hstart, -⟩ := bind_eq_done_iff.mp hdone
    rw [start_apply, hend] at hstart
    cases hstart

theorem progresses_pairRound (depth : Nat) : Progresses (pairRound (required depth)) where
  takes hround := by
    have hlength := length_add_two_le_of_pairRound (orderlyAt depth).required.forward hround
    omega
  stops {_ _ input _} hlast hend hround := by
    obtain ⟨key, middle, hkey, -⟩ :=
      pairRound_eq_goesOn (orderlyAt depth).required.forward hround
    have hnext : input.advance.current.kind = .endOfInput := Input.kind_peek_of_end hlast hend
    exact required_ne_done hnext hkey

/-! ### The loops -/

theorem unrolls_statementsToBrace {statement : Attempt Stmt} (h : statement.Forward) :
    Unrolls (fun _ ↦ True) (blockRound statement) (statementsToBrace statement) :=
  (progresses_blockRound h).unrolls (statementsToBrace_step statement) fun _ _ ↦ .failed rfl

theorem unrolls_namesAfterComma : Unrolls (fun _ ↦ True) nameRound namesAfterComma :=
  progresses_nameRound.unrolls namesAfterComma_step fun _ _ ↦ .ends rfl

theorem unrolls_itemsAfterComma {item : Attempt Expr} (h : item.Forward) :
    Unrolls (fun _ ↦ True) (itemRound item) (itemsAfterComma item) :=
  (progresses_itemRound h).unrolls (itemsAfterComma_step item) fun _ _ ↦ .ends rfl

theorem unrolls_climb {extend : Expr → Attempt Expr} (h : ∀ left, (extend left).Forward)
    {floor : Nat} (hfloor : lowest ≤ floor) :
    Unrolls (fun _ ↦ True) (operatorRound extend floor) (climb extend floor) := by
  have hround := progresses_operatorRound h hfloor
  refine hround.unrolls (climb_step extend floor) fun left problems ↦ .ends ?_
  rw [operatorRound, peekKind_bind_apply]
  exact congrFun (if_neg (Nat.not_lt.mpr hfloor)) _

/-- The pairs of a hash are read behind its opening brace. -/
theorem unrolls_pairsToBrace (depth : Nat) :
    Unrolls (·.current.kind = .lbrace) (pairRound (required depth))
      (pairsToBrace (required depth)) := by
  refine ⟨progresses_pairRound depth, pairsToBrace_step _, fun state input hbrace ↦ ?_⟩
  -- At least two tokens are taken in a round, so half as many rounds are enough.
  let measure (input : Input) : Nat := input.tokens.length / 2 + 1
  have hless {state next : List (Expr × Expr)} {input rest : Input}
      (hround : pairRound (required depth) state input = .done (.goesOn next) rest) :
      measure rest < measure input := by
    have hlength := length_add_two_le_of_pairRound (orderlyAt depth).required.forward hround
    show rest.tokens.length / 2 + 1 < input.tokens.length / 2 + 1
    omega
  have hpos : 0 < input.tokens.length := Input.length_pos (by rw [hbrace]; decide)
  have hbound : measure input ≤ input.tokens.length := by
    show input.tokens.length / 2 + 1 ≤ input.tokens.length
    omega
  exact repeats_of_measure_le (pairsToBrace_step _) hless
    (fun _ _ hzero ↦ absurd hzero (Nat.succ_ne_zero _)) hbound

/-- What the statements of a program come to: rounds are repeated until the end token is reached, or
a statement is cut off, which adds the diagnostic about nesting. -/
inductive Concludes (limit : Nat) (done : List Stmt) (input : Input) : List Stmt × Input → Prop
  | done {found : List Stmt} {rest : Input}
    (h : Repeats (programRound limit) done input (.done found rest))
    (hend : rest.current.kind = .endOfInput) : Concludes limit done input (found, rest)
  | cutOff {found : List Stmt} {rest : Input}
    (h : Repeats (programRound limit) done input (.cutOff rest)) :
    Concludes limit done input (found, rest.report .nestingTooDeep)

theorem Concludes.goesOn {limit : Nat} {done next : List Stmt} {input middle : Input}
    {result : List Stmt × Input} (h : Concludes limit next middle result)
    (hround : programRound limit done input = .done (.goesOn next) middle) :
    Concludes limit done input result := by
  cases h with
  | done hrest hend => exact .done (.goesOn hround hrest) hend
  | cutOff hrest => exact .cutOff (.goesOn hround hrest)

theorem statements_concludes (limit : Nat) {bound : List Token} (done : List Stmt) {input : Input}
    (hbound : input.tokens.length ≤ bound.length) :
    Concludes limit done input (statements limit bound done input) := by
  induction bound generalizing done input with
  | nil =>
    obtain ⟨tokens, problems⟩ := input
    obtain rfl := List.eq_nil_of_length_eq_zero (Nat.le_zero.mp hbound)
    exact .done (.ends rfl) rfl
  | cons first bound ih =>
    by_cases hend : input.current.kind = .endOfInput
    · rw [statements_of_end limit _ done hend]
      refine .done (.ends ?_) hend
      rw [programRound, current_bind_apply, if_pos hend]
      rfl
    have hround : programRound limit done input =
        ((statement limit).optional >>= fun found ↦ advance >>= fun _ ↦
          pure (.goesOn (found.toList ++ done))) input := by
      rw [programRound, current_bind_apply, if_neg hend]
    rw [bind_apply, Attempt.optional] at hround
    -- A round that goes on leaves enough of the bound for what is left.
    have hnext {next : List Stmt} {middle : Input}
        (hgoes : programRound limit done input = .done (.goesOn next) middle) :
        Concludes limit done input (statements limit bound next middle) := by
      have hless := (progresses_programRound limit).takes hgoes
      rw [List.length_cons] at hbound
      exact (ih next (by omega)).goesOn hgoes
    rw [statements_cons limit first bound done hend]
    cases houtcome : statement limit input with
    | done tree rest | failed rest =>
      rw [houtcome] at hround
      exact hnext hround
    | cutOff rest =>
      rw [houtcome] at hround
      exact .cutOff (.cutOff hround)

/-! ### Parsing -/

/-- Every parsing function moves forward in the tokens, when `depth` nested calls are allowed. -/
structure ForwardAt (depth : Nat) : Prop extends OrderlyAt depth where
  program : ∀ bound done (input : Input), input.Precedes (statements depth bound done input).2
  parameters : parameters.Forward
  integerLiteral : ∀ token, (integerLiteral token).Forward
  booleanLiteral : ∀ token, (booleanLiteral token).Forward

theorem forwardAt (depth : Nat) : ForwardAt depth where
  toOrderlyAt := orderlyAt depth
  program bound done input := statements_forward depth bound done input
  parameters := Attempt.orderly_parameters.forward
  integerLiteral token := (Attempt.orderly_integerLiteral token).forward
  booleanLiteral token := (Attempt.orderly_booleanLiteral token).forward

/-- The loops make progress in each round, and no bound ends them, when `depth` nested calls are
allowed. -/
structure LoopsAt (depth : Nat) : Prop where
  program : Progresses (programRound depth)
  concludes : ∀ done (input : Input),
    Concludes depth done input (statements depth input.tokens done input)
  block : Unrolls (fun _ ↦ True) (blockRound (statement depth))
    (statementsToBrace (statement depth))
  pairs : Unrolls (·.current.kind = .lbrace) (pairRound (required depth))
    (pairsToBrace (required depth))
  items : Unrolls (fun _ ↦ True) (itemRound (required depth)) (itemsAfterComma (required depth))
  names : Unrolls (fun _ ↦ True) nameRound namesAfterComma
  operators : ∀ floor, lowest ≤ floor →
    Unrolls (fun _ ↦ True) (operatorRound (extend depth) floor) (climb (extend depth) floor)

theorem loopsAt (depth : Nat) : LoopsAt depth where
  program := progresses_programRound depth
  concludes done _ := statements_concludes depth done le_rfl
  block := unrolls_statementsToBrace (orderlyAt depth).statement
  pairs := unrolls_pairsToBrace depth
  items := unrolls_itemsAfterComma (orderlyAt depth).required.forward
  names := unrolls_namesAfterComma
  operators _ hfloor :=
    unrolls_climb (fun left ↦ ((orderlyAt depth).extend_orderly left).forward) hfloor

end Parser

open MonkeyLang.Parser

/-- With enough nested calls allowed a parse reads statements until it comes to the end token. -/
theorem Program.exists_repeats {limit : Nat} {tokens : List Token}
    (hlimit : enoughDepth tokens.length ≤ limit) :
    ∃ found rest, Repeats (programRound limit) [] ⟨tokens, #[]⟩ (.done found rest) ∧
      rest.current.kind = .endOfInput ∧
      (Input.EndLast ⟨tokens, #[]⟩ → ∀ token ∈ rest.tokens, token.kind = .endOfInput) ∧
      Program.ofTokens limit tokens = ⟨⟨found.reverse⟩, rest.problems.toList⟩ := by
  have hnot := Program.nestingTooDeep_not_mem hlimit
  have hforward := statements_forward limit tokens [] ⟨tokens, #[]⟩
  have hbound : (Input.mk tokens #[]).tokens.length ≤ tokens.length := le_rfl
  rw [Program.ofTokens] at hnot ⊢
  have hconcludes := statements_concludes limit [] hbound
  generalize Parser.statements limit tokens [] ⟨tokens, #[]⟩ = result at hnot hforward hconcludes ⊢
  cases hconcludes with
  | @done found rest hrepeats hend =>
    exact ⟨found, rest, hrepeats, hend,
      fun hlast ↦ Input.kind_eq_of_end (hforward.endLast hlast) hend, rfl⟩
  | @cutOff found rest _ =>
    refine absurd ?_ hnot
    show Diagnostic.nestingTooDeep ∈ (rest.problems.push .nestingTooDeep).toList
    rw [Array.toList_push]
    exact List.mem_append_right _ (List.mem_singleton_self _)

/-- Ten nested calls for each token and for the end token are enough for every list of tokens, well
formed or not: no diagnostic about nesting is recorded, and statements are read until the end token
is reached. However many nested calls are allowed, each parsing function moves forward, each round
of a loop takes a token or is its last one, and at the end token no loop goes on. -/
theorem parsing_ends_with_linear_nesting :
    (∃ c, ∀ (tokens : List Token) (limit : Nat), c * (tokens.length + 1) ≤ limit →
      ∀ given ∈ [tokens, tokens ++ [.endOfInput]],
        Diagnostic.nestingTooDeep ∉ (Program.ofTokens limit given).problems ∧
        ∃ found rest, Repeats (programRound limit) [] ⟨given, #[]⟩ (.done found rest) ∧
          rest.current.kind = .endOfInput ∧
          (Input.EndLast ⟨given, #[]⟩ → ∀ token ∈ rest.tokens, token.kind = .endOfInput) ∧
          Program.ofTokens limit given = ⟨⟨found.reverse⟩, rest.problems.toList⟩) ∧
    ∀ depth, ForwardAt depth ∧ LoopsAt depth := by
  refine ⟨⟨10, fun tokens limit hlimit given hgiven ↦ ?_⟩,
    fun depth ↦ ⟨forwardAt depth, loopsAt depth⟩⟩
  have hlength : given.length ≤ tokens.length + 1 := by
    rcases List.mem_pair.mp hgiven with rfl | rfl
    · exact Nat.le_succ _
    · rw [List.length_append, List.length_singleton]
  have henough : enoughDepth given.length ≤ limit := by
    rw [enoughDepth]
    omega
  exact ⟨Program.nestingTooDeep_not_mem henough, Program.exists_repeats henough⟩

end MonkeyLang
