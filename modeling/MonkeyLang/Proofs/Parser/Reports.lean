import Mathlib.Tactic
import MonkeyLang.Proofs.Parser.Lockstep
import MonkeyLang.Proofs.Parser.Progress

/-!
# Failures are reported, and truthfully

A construct that fails is seen from outside only by its diagnostics, so none may be missing and none
may be wrong. Diagnostics are only ever added behind those that are there, and those that are added
are truthful, however an attempt ends (`Attempt.Truthful`). This is in lockstep, so it holds of
every parsing function.

That a token is blamed rightly rests on what is known of silent failures: an expression fails
without a word only at a token that starts none, which it leaves where it is
(`OrderlyAt.expression_reports`), and that token is then the one that `required` reports. The only
other silent failure is the empty statement.
-/

set_option autoImplicit false

namespace MonkeyLang

open Grammar

namespace Parser

variable {α β : Type}

/-! ### Diagnostics that are added -/

/-- The second input has the diagnostics of the first one and behind them only truthful ones. -/
def Input.Learns (input rest : Input) : Prop :=
  ∃ added, rest.problems.toList = input.problems.toList ++ added ∧
    ∀ problem ∈ added, problem.IsTruthful

namespace Input.Learns

variable {input middle rest : Input}

theorem of_problems_eq (h : rest.problems = input.problems) : input.Learns rest :=
  ⟨[], by rw [h, List.append_nil], List.forall_mem_nil _⟩

theorem trans (h : input.Learns middle) (h' : middle.Learns rest) : input.Learns rest := by
  obtain ⟨added, heq, htruthful⟩ := h
  obtain ⟨more, heq', htruthful'⟩ := h'
  refine ⟨added ++ more, by rw [heq', heq, List.append_assoc], ?_⟩
  exact List.forall_mem_append.mpr ⟨htruthful, htruthful'⟩

theorem report (input : Input) {problem : Diagnostic} (h : problem.IsTruthful) :
    input.Learns (input.report problem) :=
  ⟨[problem], by rw [Input.problems_report, Array.toList_push], List.forall_mem_singleton.mpr h⟩

end Input.Learns

namespace Attempt

/-- The attempt adds truthful diagnostics only, however it ends. -/
def Truthful (construct : Attempt α) : Prop :=
  ∀ input : Input, input.Learns (construct input).rest

theorem truthful_of_problems_eq {construct : Attempt α}
    (h : ∀ input : Input, (construct input).rest.problems = input.problems) :
    construct.Truthful :=
  fun input ↦ .of_problems_eq (h input)

theorem truthful_accept (kind : Kind) : (accept kind).Truthful := by
  refine truthful_of_problems_eq fun input ↦ ?_
  unfold accept
  split_ifs <;> rfl

theorem truthful_expect (kind : Kind) : (expect kind).Truthful := by
  intro input
  unfold expect
  split_ifs with hkind
  · exact .of_problems_eq rfl
  · exact .report input (Diagnostic.isTruthful_unexpectedToken (Ne.symm hkind))

theorem Truthful.bind {first : Attempt α} {next : α → Attempt β} (hfirst : first.Truthful)
    (hnext : ∀ value, (next value).Truthful) : (first >>= next).Truthful := by
  intro input
  have hlearns := hfirst input
  rw [bind_apply]
  cases houtcome : first input with
  | done value middle =>
    rw [houtcome] at hlearns
    exact hlearns.trans (hnext value middle)
  | failed middle | cutOff middle => rwa [houtcome] at hlearns

theorem Truthful.optional {construct : Attempt α} (h : construct.Truthful) :
    construct.optional.Truthful := by
  intro input
  have hlearns := h input
  unfold Attempt.optional
  cases houtcome : construct input with
  | done value middle | failed middle | cutOff middle => rwa [houtcome] at hlearns

/-- A failure without a word is put down to the current token, which starts no expression if the
attempt fails so only at such a token. -/
theorem Truthful.reportSilence {construct : Attempt α} (h : construct.Truthful)
    (hsilent : ∀ {input rest : Input}, construct input = .failed rest →
      input.problems.size < rest.problems.size ∨
        (rest = input ∧ ¬startsExpression input.current.kind)) :
    (reportSilence construct).Truthful := by
  intro input
  have hlearns := h input
  unfold Parser.reportSilence
  cases houtcome : construct input with
  | done value middle | cutOff middle => rwa [houtcome] at hlearns
  | failed middle =>
    rw [houtcome] at hlearns
    dsimp only
    split_ifs with hsize
    · rcases hsilent houtcome with hlt | ⟨rfl, hkind⟩
      · exact absurd hsize (Nat.ne_of_gt hlt)
      · exact .report middle (Diagnostic.isTruthful_noExpression hkind)
    · exact hlearns

end Attempt

/-! ### The parsing functions -/

open Attempt

theorem lockstep_truthful : Lockstep fun construct _ ↦ construct.Truthful where
  pure _ := truthful_of_problems_eq fun _ ↦ rfl
  bind := Truthful.bind
  current := truthful_of_problems_eq fun _ ↦ rfl
  peekKind := truthful_of_problems_eq fun _ ↦ rfl
  remaining := truthful_of_problems_eq fun _ ↦ rfl
  advance := truthful_of_problems_eq fun _ ↦ rfl
  expect := truthful_expect
  accept := truthful_accept
  failed := truthful_of_problems_eq fun _ ↦ rfl
  refuse htruthful _ := fun input ↦ .report input htruthful
  optional := Truthful.optional
  required {depth _} h := h.reportSilence (orderlyAt depth).expression_reports

theorem truthfulAt (depth : Nat) : LockstepAt (fun construct _ ↦ construct.Truthful) depth depth :=
  LockstepAt.same lockstep_truthful (truthful_of_problems_eq fun _ ↦ rfl) depth

theorem statements_learns (limit : Nat) (bound : List Token) (done : List Stmt) (input : Input) :
    input.Learns (statements limit bound done input).2 := by
  induction bound generalizing done input with
  | nil => exact .of_problems_eq rfl
  | cons first bound ih =>
    by_cases hend : input.current.kind = .endOfInput
    · rw [statements_of_end limit _ done hend]
      exact .of_problems_eq rfl
    · have hlearns := (truthfulAt limit).statement input
      have hnext (rest : Input) (done : List Stmt) (hrest : input.Learns rest) :
          input.Learns (statements limit bound done rest.advance).2 :=
        hrest.trans (ih done rest.advance)
      rw [statements_cons limit first bound done hend]
      cases houtcome : statement limit input with
      | done tree rest =>
        rw [houtcome] at hlearns
        exact hnext rest _ hlearns
      | failed rest =>
        rw [houtcome] at hlearns
        exact hnext rest _ hlearns
      | cutOff rest =>
        rw [houtcome] at hlearns
        exact hlearns.trans (.report rest ⟨rfl, nofun, nofun⟩)

/-! ### Failures -/

/-- However the attempt ends, it has added truthful diagnostics behind those that were there; and if
it has failed, at least one, or it has left the input as it was and may be silent there. -/
def Attempt.ReportsUnless (silent : Input → Prop) (construct : Attempt α) : Prop :=
  ∀ input : Input, ∃ added,
    (construct input).rest.problems.toList = input.problems.toList ++ added ∧
      (∀ problem ∈ added, problem.IsTruthful) ∧
        ∀ rest, construct input = .failed rest → added ≠ [] ∨ (rest = input ∧ silent input)

/-- There is no failure without a diagnostic. -/
def Attempt.Reports (construct : Attempt α) : Prop :=
  construct.ReportsUnless fun _ ↦ False

theorem Attempt.Truthful.reportsUnless {construct : Attempt α} (h : construct.Truthful)
    {silent : Input → Prop}
    (hfailed : ∀ {input rest : Input}, construct input = .failed rest →
      input.problems.size < rest.problems.size ∨ (rest = input ∧ silent input)) :
    construct.ReportsUnless silent := by
  intro input
  obtain ⟨added, heq, htruthful⟩ := h input
  refine ⟨added, heq, htruthful, fun rest hrest ↦ (hfailed hrest).imp_left fun hlt ↦ ?_⟩
  rintro rfl
  rw [hrest, List.append_nil] at heq
  have hsize := congrArg List.length heq
  rw [Array.length_toList, Array.length_toList] at hsize
  exact absurd hsize (Nat.ne_of_gt hlt)

theorem Attempt.Truthful.reports {construct : Attempt α} (h : construct.Truthful)
    (horderly : construct.Orderly) : construct.Reports :=
  h.reportsUnless fun hfailed ↦ .inl (horderly.reports hfailed)

/-- What the parsing functions report when `depth` nested calls are allowed. -/
structure ReportsAt (depth : Nat) : Prop where
  statement : (statement depth).ReportsUnless fun input ↦ input.current.kind = .semicolon
  letStatement : (letStatement depth).Reports
  returnStatement : (returnStatement depth).Reports
  expressionStatement : (expressionStatement depth).Reports
  block : (block depth).Reports
  expression : ∀ floor, (expression depth floor).ReportsUnless
    fun input ↦ ¬startsExpression input.current.kind
  required : (required depth).Reports
  integerLiteral : ∀ token, (integerLiteral token).Reports
  booleanLiteral : ∀ token, (booleanLiteral token).Reports
  unary : ∀ token, (unary depth token).Reports
  binary : ∀ token left, (binary depth token left).Reports
  grouped : (grouped depth).Reports
  conditional : ∀ token, (conditional depth token).Reports
  functionLiteral : ∀ token, (functionLiteral depth token).Reports
  parameters : parameters.Reports
  items : ∀ close, (items depth close).Reports
  call : ∀ token callee, (call depth token callee).Reports
  arrayLiteral : ∀ token, (arrayLiteral depth token).Reports
  index : ∀ token left, (index depth token left).Reports
  hashLiteral : ∀ token, (hashLiteral depth token).Reports

theorem reportsAt (depth : Nat) : ReportsAt depth := by
  have hat := truthfulAt depth
  have horderly := orderlyAt depth
  exact {
    statement := hat.statement.reportsUnless horderly.statement_reports
    letStatement := hat.letStatement.reports horderly.letStatement
    returnStatement := hat.returnStatement.reports horderly.returnStatement
    expressionStatement := hat.expressionStatement.reports horderly.expressionStatement
    block := hat.block.reports horderly.block
    expression := fun floor ↦ (hat.expression floor).reportsUnless horderly.expression_reports
    required := hat.required.reports horderly.required
    integerLiteral := fun token ↦
      (lockstep_truthful.integerLiteral token).reports (orderly_integerLiteral token)
    booleanLiteral := fun token ↦
      (lockstep_truthful.booleanLiteral token).reports (orderly_booleanLiteral token)
    unary := fun token ↦ (hat.unary token).reports (horderly.unary token)
    binary := fun token left ↦ (hat.binary token left).reports (horderly.binary token left)
    grouped := hat.grouped.reports horderly.grouped
    conditional := fun token ↦ (hat.conditional token).reports (horderly.conditional token)
    functionLiteral := fun token ↦
      (hat.functionLiteral token).reports (horderly.functionLiteral token)
    parameters := Truthful.reports lockstep_truthful.parameters orderly_parameters
    items := fun close ↦ (hat.items close).reports (horderly.items close)
    call := fun token callee ↦ (hat.call token callee).reports (horderly.call token callee)
    arrayLiteral := fun token ↦ (hat.arrayLiteral token).reports (horderly.arrayLiteral token)
    index := fun token left ↦ (hat.index token left).reports (horderly.index token left)
    hashLiteral := fun token ↦ (hat.hashLiteral token).reports (horderly.hashLiteral token) }

end Parser

/-- Every parsing function adds truthful diagnostics behind those that are there, and does not fail
without one, but for an expression at a token that starts none and a statement at a semicolon, which
leave the input as it is. The statements of a program, too, only add truthful diagnostics, so all
diagnostics of a program are truthful. -/
theorem parse_failures_are_reported (limit : Nat) :
    Parser.ReportsAt limit ∧
      (∀ (bound : List Token) (done : List Stmt) (input : Parser.Input),
        input.Learns (Parser.statements limit bound done input).2) ∧
        ∀ tokens : List Token, ∀ problem ∈ (Program.ofTokens limit tokens).problems,
          problem.IsTruthful := by
  refine ⟨Parser.reportsAt limit, Parser.statements_learns limit, fun tokens problem hmem ↦ ?_⟩
  obtain ⟨added, heq, htruthful⟩ := Parser.statements_learns limit tokens [] ⟨tokens, #[]⟩
  refine htruthful problem ?_
  rw [Array.toList_empty, List.nil_append] at heq
  rw [← heq]
  exact hmem

end MonkeyLang
