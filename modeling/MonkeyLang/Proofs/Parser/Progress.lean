import Mathlib.Tactic
import MonkeyLang.Proofs.Grammar
import MonkeyLang.Proofs.Parser.Outcome

/-!
# Parsing moves forward and reports its failures

Every attempt leaves an input whose tokens are an end of the tokens it was given and whose
diagnostics start with those that were there before (`Input.Precedes`). An attempt is `Orderly` if
moreover its failures add a diagnostic. Both properties are kept by chains, so that they follow for
each parsing function from the attempts in it.

Two functions may fail without a word: an expression at a token that starts none, and a statement
at a semicolon. Both then leave the input as it was. `OrderlyAt` collects all this for the parsing
functions at a given number of nested calls, and `orderlyAt` proves it for every number.
-/

set_option autoImplicit false

namespace MonkeyLang.Parser

open Grammar

variable {α β : Type}

/-! ### Order of inputs -/

/-- The second input is the first one moved on, with diagnostics added behind those it has. -/
structure Input.Precedes (input rest : Input) : Prop where
  tokens : rest.tokens <:+ input.tokens
  problems : input.problems.toList <+: rest.problems.toList

namespace Input.Precedes

theorem refl (input : Input) : input.Precedes input :=
  ⟨List.suffix_refl _, List.prefix_refl _⟩

theorem trans {first second third : Input} (h : first.Precedes second)
    (h' : second.Precedes third) : first.Precedes third :=
  ⟨h'.tokens.trans h.tokens, h.problems.trans h'.problems⟩

theorem advance (input : Input) : input.Precedes input.advance :=
  ⟨List.tail_suffix _, List.prefix_refl _⟩

theorem report (input : Input) (problem : Diagnostic) :
    input.Precedes (input.report problem) := by
  refine ⟨List.suffix_refl _, ?_⟩
  rw [Input.problems_report, Array.toList_push]
  exact List.prefix_append _ _

theorem size_le {input rest : Input} (h : input.Precedes rest) :
    input.problems.size ≤ rest.problems.size := by
  rw [← Array.length_toList, ← Array.length_toList]
  exact h.problems.length_le

end Input.Precedes

/-- The input at which an attempt ends, however it ends. -/
def Outcome.rest : Outcome α → Input
  | .done _ rest | .failed rest | .cutOff rest => rest

namespace Attempt

def Forward (construct : Attempt α) : Prop :=
  ∀ input : Input, input.Precedes (construct input).rest

/-- The attempt moves forward, and it adds a diagnostic when it fails. -/
structure Orderly (construct : Attempt α) : Prop where
  forward : construct.Forward
  reports : ∀ {input rest : Input}, construct input = .failed rest →
    input.problems.size < rest.problems.size

theorem Forward.of_done {construct : Attempt α} (h : construct.Forward) {input rest : Input}
    {value : α} (hdone : construct input = .done value rest) : input.Precedes rest := by
  have hprecedes := h input
  rwa [hdone] at hprecedes

theorem Forward.of_failed {construct : Attempt α} (h : construct.Forward) {input rest : Input}
    (hfailed : construct input = .failed rest) : input.Precedes rest := by
  have hprecedes := h input
  rwa [hfailed] at hprecedes

/-! ### Chains -/

theorem Forward.bind {first : Attempt α} {next : α → Attempt β} (hfirst : first.Forward)
    (hnext : ∀ value, (next value).Forward) : (first >>= next).Forward := by
  intro input
  have hprecedes := hfirst input
  rw [bind_apply]
  cases houtcome : first input with
  | done value rest =>
    rw [houtcome] at hprecedes
    exact hprecedes.trans (hnext value rest)
  | failed rest | cutOff rest => rwa [houtcome] at hprecedes

theorem Orderly.bind {first : Attempt α} {next : α → Attempt β} (hfirst : first.Orderly)
    (hnext : ∀ value, (next value).Orderly) : (first >>= next).Orderly := by
  refine ⟨hfirst.forward.bind fun value ↦ (hnext value).forward, fun {input rest} hfailed ↦ ?_⟩
  rcases bind_eq_failed_iff.mp hfailed with hfailed | ⟨value, middle, hdone, hfailed⟩
  · exact hfirst.reports hfailed
  · exact (hfirst.forward.of_done hdone).size_le.trans_lt ((hnext value).reports hfailed)

theorem orderly_pure (value : α) : (pure value : Attempt α).Orderly :=
  ⟨Input.Precedes.refl, nofun⟩

theorem orderly_current : current.Orderly :=
  ⟨Input.Precedes.refl, nofun⟩

theorem orderly_peekKind : peekKind.Orderly :=
  ⟨Input.Precedes.refl, nofun⟩

theorem orderly_remaining : remaining.Orderly :=
  ⟨Input.Precedes.refl, nofun⟩

theorem orderly_advance : advance.Orderly :=
  ⟨Input.Precedes.advance, nofun⟩

theorem orderly_cutOff : (cutOff : Attempt α).Orderly :=
  ⟨Input.Precedes.refl, nofun⟩

theorem orderly_refuse (problem : Diagnostic) : (refuse problem : Attempt α).Orderly := by
  refine ⟨fun input ↦ .report input problem, fun {input rest} hfailed ↦ ?_⟩
  rw [refuse_apply] at hfailed
  injection hfailed with heq
  rw [← heq, Input.problems_report, Array.size_push]
  exact Nat.lt_succ_self _

theorem orderly_expect (kind : Kind) : (expect kind).Orderly := by
  constructor
  · intro input
    unfold expect
    split_ifs
    · exact .advance input
    · exact .report input _
  · intro input rest hfailed
    unfold expect at hfailed
    split_ifs at hfailed
    injection hfailed with heq
    rw [← heq, Input.problems_report, Array.size_push]
    exact Nat.lt_succ_self _

theorem orderly_accept (kind : Kind) : (accept kind).Orderly := by
  constructor
  · intro input
    unfold accept
    split_ifs
    · exact .advance input
    · exact .refl input
  · intro input rest hfailed
    unfold accept at hfailed
    split_ifs at hfailed

theorem forward_failed : (failed : Attempt α).Forward :=
  Input.Precedes.refl

/-- An attempt that goes on after a failure does not fail. -/
theorem Forward.optional {construct : Attempt α} (h : construct.Forward) :
    construct.optional.Orderly := by
  refine ⟨fun input ↦ ?_, fun hfailed ↦ absurd hfailed optional_ne_failed⟩
  have hprecedes := h input
  unfold Attempt.optional
  cases houtcome : construct input with
  | done value rest | failed rest | cutOff rest => rwa [houtcome] at hprecedes

theorem Forward.reportSilence {construct : Attempt α} (h : construct.Forward) :
    (reportSilence construct).Orderly := by
  constructor
  · intro input
    have hprecedes := h input
    unfold Parser.reportSilence
    cases houtcome : construct input with
    | done value rest | cutOff rest => rwa [houtcome] at hprecedes
    | failed rest =>
      rw [houtcome] at hprecedes
      dsimp only
      split_ifs
      · exact hprecedes.trans (.report rest _)
      · exact hprecedes
  · intro input rest hfailed
    unfold Parser.reportSilence at hfailed
    cases houtcome : construct input with
    | done value middle =>
      rw [houtcome] at hfailed
      cases hfailed
    | cutOff middle =>
      rw [houtcome] at hfailed
      cases hfailed
    | failed middle =>
      have hle := (h.of_failed houtcome).size_le
      rw [houtcome] at hfailed
      dsimp only at hfailed
      split_ifs at hfailed with hsize
      · injection hfailed with heq
        rw [← heq, Input.problems_report, Array.size_push, hsize]
        exact Nat.lt_succ_self _
      · injection hfailed with heq
        rw [← heq]
        exact lt_of_le_of_ne hle (Ne.symm hsize)

/-! ### Loops -/

theorem Forward.statementsToBrace {statement : Attempt Stmt} (h : statement.Forward)
    (bound : List Token) (done : List Stmt) :
    (statementsToBrace statement bound done).Orderly := by
  induction bound generalizing done with
  | nil => exact orderly_refuse _
  | cons first bound ih =>
    rw [Parser.statementsToBrace]
    refine .bind orderly_current fun token ↦ ?_
    split
    · exact orderly_pure _
    · exact orderly_refuse _
    · exact .bind h.optional fun found ↦ .bind orderly_advance fun _ ↦ ih _

theorem orderly_namesAfterComma (bound : List Token) (done : List Identifier) :
    (namesAfterComma bound done).Orderly := by
  induction bound generalizing done with
  | nil => exact orderly_pure _
  | cons first bound ih =>
    rw [namesAfterComma]
    refine .bind (orderly_accept _) fun accepted ↦ ?_
    split_ifs
    · exact .bind (orderly_expect _) fun _ ↦ .bind orderly_current fun token ↦ ih _
    · exact orderly_pure _

theorem orderly_parameters : parameters.Orderly := by
  rw [parameters]
  refine .bind (orderly_accept _) fun accepted ↦ ?_
  split_ifs
  · exact orderly_pure _
  · refine .bind (orderly_expect _) fun _ ↦ .bind orderly_current fun token ↦ ?_
    refine .bind orderly_remaining fun bound ↦ .bind (orderly_namesAfterComma _ _) fun names ↦ ?_
    exact .bind (orderly_expect _) fun _ ↦ orderly_pure _

theorem Orderly.itemsAfterComma {item : Attempt Expr} (h : item.Orderly) (bound : List Token)
    (done : List Expr) : (itemsAfterComma item bound done).Orderly := by
  induction bound generalizing done with
  | nil => exact orderly_pure _
  | cons first bound ih =>
    rw [Parser.itemsAfterComma]
    refine .bind (orderly_accept _) fun accepted ↦ ?_
    split_ifs
    · exact .bind orderly_advance fun _ ↦ .bind h fun next ↦ ih _
    · exact orderly_pure _

theorem Orderly.pairsToBrace {item : Attempt Expr} (h : item.Orderly) (bound : List Token)
    (done : List (Expr × Expr)) : (pairsToBrace item bound done).Orderly := by
  induction bound generalizing done with
  | nil => exact orderly_pure _
  | cons first bound ih =>
    rw [Parser.pairsToBrace]
    refine .bind orderly_peekKind fun kind ↦ ?_
    split_ifs
    · exact orderly_pure _
    · refine .bind orderly_advance fun _ ↦ .bind h fun key ↦ .bind (orderly_expect _) fun _ ↦ ?_
      refine .bind orderly_advance fun _ ↦ .bind h fun value ↦ .bind orderly_peekKind fun kind ↦ ?_
      split_ifs
      · exact .bind (orderly_expect _) fun _ ↦ ih _
      · exact ih _

theorem orderly_climb {extend : Expr → Attempt Expr} (h : ∀ left, (extend left).Orderly)
    (floor : Nat) (bound : List Token) (left : Expr) : (climb extend floor bound left).Orderly := by
  induction bound generalizing left with
  | nil => exact orderly_pure _
  | cons first bound ih =>
    rw [climb]
    refine .bind orderly_peekKind fun kind ↦ ?_
    split_ifs
    · exact .bind orderly_advance fun _ ↦ .bind (h left) fun left ↦ ih left
    · exact orderly_pure _

theorem orderly_integerLiteral (token : Token) : (integerLiteral token).Orderly := by
  rw [integerLiteral]
  split
  · split_ifs
    · exact orderly_pure _
    · exact orderly_refuse _
  · exact orderly_refuse _

theorem orderly_booleanLiteral (token : Token) : (booleanLiteral token).Orderly := by
  rw [booleanLiteral]
  split_ifs
  · exact orderly_pure _
  · exact orderly_pure _
  · exact orderly_refuse _

end Attempt

/-! ### The parsing functions -/

open Attempt

/-- The parsing functions move forward and report their failures when `depth` nested calls are
allowed. -/
structure OrderlyAt (depth : Nat) : Prop where
  statement : (statement depth).Forward
  statement_reports : ∀ {input rest : Input}, Parser.statement depth input = .failed rest →
    input.problems.size < rest.problems.size ∨
      (rest = input ∧ input.current.kind = .semicolon)
  letStatement : (letStatement depth).Orderly
  returnStatement : (returnStatement depth).Orderly
  expressionStatement : (expressionStatement depth).Orderly
  block : (block depth).Orderly
  expression : ∀ floor, (expression depth floor).Forward
  expression_reports : ∀ {floor : Nat} {input rest : Input},
    Parser.expression depth floor input = .failed rest →
      input.problems.size < rest.problems.size ∨
        (rest = input ∧ ¬ startsExpression input.current.kind)
  required : (required depth).Orderly
  unary : ∀ token, (unary depth token).Orderly
  binary : ∀ token left, (binary depth token left).Orderly
  grouped : (grouped depth).Orderly
  conditional : ∀ token, (conditional depth token).Orderly
  functionLiteral : ∀ token, (functionLiteral depth token).Orderly
  items : ∀ close, (items depth close).Orderly
  call : ∀ token callee, (call depth token callee).Orderly
  arrayLiteral : ∀ token, (arrayLiteral depth token).Orderly
  index : ∀ token left, (index depth token left).Orderly
  hashLiteral : ∀ token, (hashLiteral depth token).Orderly

theorem orderlyAt_zero : OrderlyAt 0 where
  statement := orderly_cutOff.forward
  statement_reports := nofun
  letStatement := orderly_cutOff
  returnStatement := orderly_cutOff
  expressionStatement := orderly_cutOff
  block := orderly_cutOff
  expression _ := orderly_cutOff.forward
  expression_reports := nofun
  required := orderly_cutOff
  unary _ := orderly_cutOff
  binary _ _ := orderly_cutOff
  grouped := orderly_cutOff
  conditional _ := orderly_cutOff
  functionLiteral _ := orderly_cutOff
  items _ := orderly_cutOff
  call _ _ := orderly_cutOff
  arrayLiteral _ := orderly_cutOff
  index _ _ := orderly_cutOff
  hashLiteral _ := orderly_cutOff

namespace OrderlyAt

variable {depth : Nat}

theorem statement_succ (h : OrderlyAt depth) : (Parser.statement (depth + 1)).Forward := by
  rw [Parser.statement]
  refine orderly_current.forward.bind fun token ↦ ?_
  split
  · exact h.letStatement.forward
  · exact h.returnStatement.forward
  · exact forward_failed
  · exact h.expressionStatement.forward

theorem statement_reports_succ (h : OrderlyAt depth) {input rest : Input}
    (hfailed : Parser.statement (depth + 1) input = .failed rest) :
    input.problems.size < rest.problems.size ∨
      (rest = input ∧ input.current.kind = .semicolon) := by
  rw [statement_succ_apply] at hfailed
  split at hfailed
  · exact .inl (h.letStatement.reports hfailed)
  · exact .inl (h.returnStatement.reports hfailed)
  · rename_i hkind
    injection hfailed with heq
    exact .inr ⟨heq.symm, hkind⟩
  · exact .inl (h.expressionStatement.reports hfailed)

theorem letStatement_succ (h : OrderlyAt depth) : (Parser.letStatement (depth + 1)).Orderly := by
  rw [Parser.letStatement]
  refine .bind orderly_current fun token ↦ .bind (orderly_expect _) fun _ ↦ ?_
  refine .bind orderly_current fun name ↦ .bind (orderly_expect _) fun _ ↦ ?_
  refine .bind orderly_advance fun _ ↦ .bind (h.expression _).optional fun found ↦ ?_
  cases found with
  | none => exact orderly_refuse _
  | some value => exact .bind (orderly_accept _) fun _ ↦ orderly_pure _

theorem returnStatement_succ (h : OrderlyAt depth) :
    (Parser.returnStatement (depth + 1)).Orderly := by
  rw [Parser.returnStatement]
  refine .bind orderly_current fun token ↦ .bind orderly_advance fun _ ↦ ?_
  refine .bind (h.expression _).optional fun found ↦ ?_
  cases found with
  | none => exact orderly_refuse _
  | some value => exact .bind (orderly_accept _) fun _ ↦ orderly_pure _

theorem expressionStatement_succ (h : OrderlyAt depth) :
    (Parser.expressionStatement (depth + 1)).Orderly := by
  rw [Parser.expressionStatement]
  refine .bind orderly_current fun token ↦ .bind h.required fun value ↦ ?_
  exact .bind (orderly_accept _) fun _ ↦ orderly_pure _

theorem block_succ (h : OrderlyAt depth) : (Parser.block (depth + 1)).Orderly := by
  rw [Parser.block]
  refine .bind orderly_current fun token ↦ .bind orderly_advance fun _ ↦ ?_
  refine .bind orderly_remaining fun bound ↦ ?_
  exact .bind (h.statement.statementsToBrace _ _) fun statements ↦ orderly_pure _

theorem start_forward (h : OrderlyAt depth) (token : Token) : (start depth token).Forward := by
  rw [start]
  split
  · exact (orderly_pure _).forward
  · exact (orderly_integerLiteral token).forward
  · exact (orderly_pure _).forward
  · exact (orderly_booleanLiteral token).forward
  · exact (orderly_booleanLiteral token).forward
  · exact (h.unary token).forward
  · exact (h.unary token).forward
  · exact h.grouped.forward
  · exact (h.conditional token).forward
  · exact (h.functionLiteral token).forward
  · exact (h.arrayLiteral token).forward
  · exact (h.hashLiteral token).forward
  · exact forward_failed

/-- A start fails without a word only at a token that starts no expression. -/
theorem start_reports (h : OrderlyAt depth) {token : Token} {input rest : Input}
    (hfailed : start depth token input = .failed rest) :
    input.problems.size < rest.problems.size ∨
      (rest = input ∧ ¬ startsExpression token.kind) := by
  rw [start_apply] at hfailed
  split at hfailed
  · cases hfailed
  · exact .inl ((orderly_integerLiteral token).reports hfailed)
  · cases hfailed
  · exact .inl ((orderly_booleanLiteral token).reports hfailed)
  · exact .inl ((orderly_booleanLiteral token).reports hfailed)
  · exact .inl ((h.unary token).reports hfailed)
  · exact .inl ((h.unary token).reports hfailed)
  · exact .inl (h.grouped.reports hfailed)
  · exact .inl ((h.conditional token).reports hfailed)
  · exact .inl ((h.functionLiteral token).reports hfailed)
  · exact .inl ((h.arrayLiteral token).reports hfailed)
  · exact .inl ((h.hashLiteral token).reports hfailed)
  · injection hfailed with heq
    refine .inr ⟨heq.symm, fun hstart ↦ ?_⟩
    unfold startsExpression at hstart
    split at hstart <;> simp_all

theorem extend_orderly (h : OrderlyAt depth) (left : Expr) : (extend depth left).Orderly := by
  rw [extend]
  refine .bind orderly_current fun token ↦ ?_
  split
  · exact h.call token left
  · exact h.index token left
  · exact h.binary token left

theorem rest_orderly (h : OrderlyAt depth) (floor : Nat) (left : Expr) :
    (remaining >>= fun bound ↦ climb (extend depth) floor bound left).Orderly :=
  .bind orderly_remaining fun bound ↦ orderly_climb h.extend_orderly floor bound left

theorem expression_succ (h : OrderlyAt depth) (floor : Nat) :
    (Parser.expression (depth + 1) floor).Forward := by
  intro input
  rw [Parser.expression_succ]
  exact (h.start_forward input.current).bind (fun left ↦ (h.rest_orderly floor left).forward) input

theorem expression_reports_succ (h : OrderlyAt depth) {floor : Nat} {input rest : Input}
    (hfailed : Parser.expression (depth + 1) floor input = .failed rest) :
    input.problems.size < rest.problems.size ∨
      (rest = input ∧ ¬ startsExpression input.current.kind) := by
  rw [Parser.expression_succ] at hfailed
  rcases bind_eq_failed_iff.mp hfailed with hfailed | ⟨left, middle, hdone, hfailed⟩
  · exact h.start_reports hfailed
  · have hle := ((h.start_forward input.current).of_done hdone).size_le
    exact .inl (hle.trans_lt ((h.rest_orderly floor left).reports hfailed))

theorem required_succ (h : OrderlyAt depth) : (Parser.required (depth + 1)).Orderly := by
  rw [Parser.required]
  exact (h.expression lowest).reportSilence

theorem unary_succ (h : OrderlyAt depth) (token : Token) :
    (Parser.unary (depth + 1) token).Orderly := by
  rw [Parser.unary]
  refine .bind orderly_advance fun _ ↦ .bind (h.expression _).optional fun found ↦ ?_
  cases found with
  | none => exact orderly_refuse _
  | some right => exact orderly_pure _

theorem binary_succ (h : OrderlyAt depth) (token : Token) (left : Expr) :
    (Parser.binary (depth + 1) token left).Orderly := by
  rw [Parser.binary]
  refine .bind orderly_advance fun _ ↦ .bind (h.expression _).optional fun found ↦ ?_
  cases found with
  | none => exact orderly_refuse _
  | some right => exact orderly_pure _

theorem grouped_succ (h : OrderlyAt depth) : (Parser.grouped (depth + 1)).Orderly := by
  rw [Parser.grouped]
  refine .bind orderly_advance fun _ ↦ .bind h.required fun inner ↦ ?_
  exact .bind (orderly_expect _) fun _ ↦ orderly_pure _

theorem conditional_succ (h : OrderlyAt depth) (token : Token) :
    (Parser.conditional (depth + 1) token).Orderly := by
  rw [Parser.conditional]
  refine .bind (orderly_expect _) fun _ ↦ .bind orderly_advance fun _ ↦ ?_
  refine .bind h.required fun condition ↦ .bind (orderly_expect _) fun _ ↦ ?_
  refine .bind (orderly_expect _) fun _ ↦ .bind h.block fun consequence ↦ ?_
  refine .bind (orderly_accept _) fun accepted ↦ ?_
  split_ifs
  · exact .bind (orderly_expect _) fun _ ↦ .bind h.block fun alternative ↦ orderly_pure _
  · exact orderly_pure _

theorem functionLiteral_succ (h : OrderlyAt depth) (token : Token) :
    (Parser.functionLiteral (depth + 1) token).Orderly := by
  rw [Parser.functionLiteral]
  refine .bind (orderly_expect _) fun _ ↦ .bind orderly_parameters fun names ↦ ?_
  exact .bind (orderly_expect _) fun _ ↦ .bind h.block fun body ↦ orderly_pure _

theorem items_succ (h : OrderlyAt depth) (close : Kind) :
    (Parser.items (depth + 1) close).Orderly := by
  rw [Parser.items]
  refine .bind (orderly_accept _) fun accepted ↦ ?_
  split_ifs
  · exact orderly_pure _
  · refine .bind orderly_advance fun _ ↦ .bind h.required fun first ↦ ?_
    refine .bind orderly_remaining fun bound ↦ .bind (h.required.itemsAfterComma _ _) fun found ↦ ?_
    exact .bind (orderly_expect _) fun _ ↦ orderly_pure _

theorem call_succ (h : OrderlyAt depth) (token : Token) (callee : Expr) :
    (Parser.call (depth + 1) token callee).Orderly := by
  rw [Parser.call]
  exact .bind (h.items _) fun arguments ↦ orderly_pure _

theorem arrayLiteral_succ (h : OrderlyAt depth) (token : Token) :
    (Parser.arrayLiteral (depth + 1) token).Orderly := by
  rw [Parser.arrayLiteral]
  exact .bind (h.items _) fun elements ↦ orderly_pure _

theorem index_succ (h : OrderlyAt depth) (token : Token) (left : Expr) :
    (Parser.index (depth + 1) token left).Orderly := by
  rw [Parser.index]
  refine .bind orderly_advance fun _ ↦ .bind h.required fun place ↦ ?_
  exact .bind (orderly_expect _) fun _ ↦ orderly_pure _

theorem hashLiteral_succ (h : OrderlyAt depth) (token : Token) :
    (Parser.hashLiteral (depth + 1) token).Orderly := by
  rw [Parser.hashLiteral]
  refine .bind orderly_remaining fun bound ↦ .bind (h.required.pairsToBrace _ _) fun pairs ↦ ?_
  exact .bind (orderly_expect _) fun _ ↦ orderly_pure _

theorem succ (h : OrderlyAt depth) : OrderlyAt (depth + 1) where
  statement := h.statement_succ
  statement_reports := h.statement_reports_succ
  letStatement := h.letStatement_succ
  returnStatement := h.returnStatement_succ
  expressionStatement := h.expressionStatement_succ
  block := h.block_succ
  expression := h.expression_succ
  expression_reports := h.expression_reports_succ
  required := h.required_succ
  unary := h.unary_succ
  binary := h.binary_succ
  grouped := h.grouped_succ
  conditional := h.conditional_succ
  functionLiteral := h.functionLiteral_succ
  items := h.items_succ
  call := h.call_succ
  arrayLiteral := h.arrayLiteral_succ
  index := h.index_succ
  hashLiteral := h.hashLiteral_succ

end OrderlyAt

theorem orderlyAt (depth : Nat) : OrderlyAt depth := by
  induction depth with
  | zero => exact orderlyAt_zero
  | succ depth ih => exact ih.succ

/-- The statements of a program are read forward. -/
theorem statements_forward (limit : Nat) (bound : List Token) (done : List Stmt) (input : Input) :
    input.Precedes (statements limit bound done input).2 := by
  induction bound generalizing done input with
  | nil => exact .refl input
  | cons first bound ih =>
    by_cases hend : input.current.kind = .endOfInput
    · rw [statements_of_end limit _ done hend]
      exact .refl input
    · rw [statements_cons limit first bound done hend]
      have hprecedes := (orderlyAt limit).statement input
      cases houtcome : statement limit input with
      | done tree rest =>
        rw [houtcome] at hprecedes
        exact hprecedes.trans ((Input.Precedes.advance rest).trans (ih _ _))
      | failed rest =>
        rw [houtcome] at hprecedes
        exact hprecedes.trans ((Input.Precedes.advance rest).trans (ih _ _))
      | cutOff rest =>
        rw [houtcome] at hprecedes
        exact hprecedes.trans (.report rest _)

end MonkeyLang.Parser
