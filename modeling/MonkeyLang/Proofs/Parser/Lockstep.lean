import Mathlib.Tactic
import MonkeyLang.Proofs.Diagnostic
import MonkeyLang.Proofs.Parser.Outcome

/-!
# Parses in lockstep

Two parses of the same tokens that are allowed different numbers of nested calls take the same steps
in the same order, until one of them is cut off. How the two are compared is left open here: a
relation between attempts is *in lockstep* if it holds of every primitive step against itself, of an
attempt after another, and of what is made of a failure. It then holds of the loops, and of the
parsing functions at any numbers of nested calls for which it holds to begin with
(`LockstepAt.add`).

A relation that looks at its first attempt only says what every parse keeps to.
-/

set_option autoImplicit false

namespace MonkeyLang.Parser

/-- The relation holds of the primitive steps and is kept by everything that puts attempts
together. The diagnostic that only the end of a cut-off parse makes is not among the steps. -/
structure Lockstep (R : {α : Type} → Attempt α → Attempt α → Prop) : Prop where
  pure : ∀ {α : Type} (value : α), R (Pure.pure value) (Pure.pure value)
  bind : ∀ {α β : Type} {first first' : Attempt α} {next next' : α → Attempt β},
    R first first' → (∀ value, R (next value) (next' value)) →
      R (first >>= next) (first' >>= next')
  current : R current current
  peekKind : R peekKind peekKind
  remaining : R remaining remaining
  advance : R advance advance
  expect : ∀ kind, R (expect kind) (expect kind)
  accept : ∀ kind, R (accept kind) (accept kind)
  failed : ∀ {α : Type}, R (failed : Attempt α) failed
  refuse : ∀ {α : Type} {problem : Diagnostic}, problem.IsTruthful →
    problem.cause ≠ .nestingTooDeep → R (refuse problem : Attempt α) (refuse problem)
  optional : ∀ {α : Type} {construct construct' : Attempt α}, R construct construct' →
    R construct.optional construct'.optional
  required : ∀ {d₁ d₂ : Nat}, R (expression d₁ lowest) (expression d₂ lowest) →
    R (reportSilence (expression d₁ lowest)) (reportSilence (expression d₂ lowest))

variable {R : {α : Type} → Attempt α → Attempt α → Prop}

/-! ### Loops -/

namespace Lockstep

theorem statementsToBrace (h : Lockstep R) {statement statement' : Attempt Stmt}
    (hstatement : R statement statement') (bound : List Token) (done : List Stmt) :
    R (statementsToBrace statement bound done)
      (Parser.statementsToBrace statement' bound done) := by
  induction bound generalizing done with
  | nil => exact h.refuse (Diagnostic.isTruthful_unexpectedToken nofun) nofun
  | cons first bound ih =>
    rw [Parser.statementsToBrace, Parser.statementsToBrace]
    refine h.bind h.current fun token ↦ ?_
    split
    · exact h.pure _
    · exact h.refuse (Diagnostic.isTruthful_unexpectedToken nofun) nofun
    · refine h.bind (h.optional hstatement) fun found ↦ ?_
      exact h.bind h.advance fun _ ↦ ih _

theorem namesAfterComma (h : Lockstep R) (bound : List Token) (done : List Identifier) :
    R (namesAfterComma bound done) (Parser.namesAfterComma bound done) := by
  induction bound generalizing done with
  | nil => exact h.pure _
  | cons first bound ih =>
    rw [Parser.namesAfterComma]
    refine h.bind (h.accept _) fun accepted ↦ ?_
    split_ifs
    · exact h.bind (h.expect _) fun _ ↦ h.bind h.current fun token ↦ ih _
    · exact h.pure _

theorem parameters (h : Lockstep R) : R parameters Parser.parameters := by
  rw [Parser.parameters]
  refine h.bind (h.accept _) fun accepted ↦ ?_
  split_ifs
  · exact h.pure _
  · refine h.bind (h.expect _) fun _ ↦ h.bind h.current fun token ↦ ?_
    refine h.bind h.remaining fun bound ↦ h.bind (h.namesAfterComma _ _) fun names ↦ ?_
    exact h.bind (h.expect _) fun _ ↦ h.pure _

theorem itemsAfterComma (h : Lockstep R) {item item' : Attempt Expr} (hitem : R item item')
    (bound : List Token) (done : List Expr) :
    R (itemsAfterComma item bound done) (Parser.itemsAfterComma item' bound done) := by
  induction bound generalizing done with
  | nil => exact h.pure _
  | cons first bound ih =>
    rw [Parser.itemsAfterComma, Parser.itemsAfterComma]
    refine h.bind (h.accept _) fun accepted ↦ ?_
    split_ifs
    · exact h.bind h.advance fun _ ↦ h.bind hitem fun next ↦ ih _
    · exact h.pure _

theorem pairsToBrace (h : Lockstep R) {item item' : Attempt Expr} (hitem : R item item')
    (bound : List Token) (done : List (Expr × Expr)) :
    R (pairsToBrace item bound done) (Parser.pairsToBrace item' bound done) := by
  induction bound generalizing done with
  | nil => exact h.pure _
  | cons first bound ih =>
    rw [Parser.pairsToBrace, Parser.pairsToBrace]
    refine h.bind h.peekKind fun kind ↦ ?_
    split_ifs
    · exact h.pure _
    · refine h.bind h.advance fun _ ↦ h.bind hitem fun key ↦ h.bind (h.expect _) fun _ ↦ ?_
      refine h.bind h.advance fun _ ↦ h.bind hitem fun value ↦ h.bind h.peekKind fun kind ↦ ?_
      split_ifs
      · exact h.bind (h.expect _) fun _ ↦ ih _
      · exact ih _

theorem climb (h : Lockstep R) {extend extend' : Expr → Attempt Expr}
    (hextend : ∀ left, R (extend left) (extend' left)) (floor : Nat) (bound : List Token)
    (left : Expr) : R (climb extend floor bound left) (Parser.climb extend' floor bound left) := by
  induction bound generalizing left with
  | nil => exact h.pure _
  | cons first bound ih =>
    rw [Parser.climb, Parser.climb]
    refine h.bind h.peekKind fun kind ↦ ?_
    split_ifs
    · exact h.bind h.advance fun _ ↦ h.bind (hextend left) fun left ↦ ih left
    · exact h.pure _

theorem integerLiteral (h : Lockstep R) (token : Token) :
    R (integerLiteral token) (Parser.integerLiteral token) := by
  rw [Parser.integerLiteral]
  split
  · split_ifs
    · exact h.pure _
    · exact h.refuse ⟨rfl, nofun, nofun⟩ nofun
  · exact h.refuse ⟨rfl, nofun, nofun⟩ nofun

theorem booleanLiteral (h : Lockstep R) (token : Token) :
    R (booleanLiteral token) (Parser.booleanLiteral token) := by
  rw [Parser.booleanLiteral]
  split_ifs
  · exact h.pure _
  · exact h.pure _
  · exact h.refuse ⟨rfl, nofun, nofun⟩ nofun

end Lockstep

/-! ### The parsing functions -/

/-- The relation holds of the parsing functions when `d₁` nested calls are allowed in the first
parse and `d₂` in the second. -/
structure LockstepAt (R : {α : Type} → Attempt α → Attempt α → Prop) (d₁ d₂ : Nat) : Prop where
  statement : R (statement d₁) (statement d₂)
  letStatement : R (letStatement d₁) (letStatement d₂)
  returnStatement : R (returnStatement d₁) (returnStatement d₂)
  expressionStatement : R (expressionStatement d₁) (expressionStatement d₂)
  block : R (block d₁) (block d₂)
  expression : ∀ floor, R (expression d₁ floor) (expression d₂ floor)
  required : R (required d₁) (required d₂)
  unary : ∀ token, R (unary d₁ token) (unary d₂ token)
  binary : ∀ token left, R (binary d₁ token left) (binary d₂ token left)
  grouped : R (grouped d₁) (grouped d₂)
  conditional : ∀ token, R (conditional d₁ token) (conditional d₂ token)
  functionLiteral : ∀ token, R (functionLiteral d₁ token) (functionLiteral d₂ token)
  items : ∀ close, R (items d₁ close) (items d₂ close)
  call : ∀ token callee, R (call d₁ token callee) (call d₂ token callee)
  arrayLiteral : ∀ token, R (arrayLiteral d₁ token) (arrayLiteral d₂ token)
  index : ∀ token left, R (index d₁ token left) (index d₂ token left)
  hashLiteral : ∀ token, R (hashLiteral d₁ token) (hashLiteral d₂ token)

namespace LockstepAt

variable {d₁ d₂ : Nat}

/-- With no nested call allowed in either parse both are cut off at once. -/
theorem zero (hcutOff : ∀ {α : Type}, R (cutOff : Attempt α) cutOff) : LockstepAt R 0 0 where
  statement := hcutOff
  letStatement := hcutOff
  returnStatement := hcutOff
  expressionStatement := hcutOff
  block := hcutOff
  expression _ := hcutOff
  required := hcutOff
  unary _ := hcutOff
  binary _ _ := hcutOff
  grouped := hcutOff
  conditional _ := hcutOff
  functionLiteral _ := hcutOff
  items _ := hcutOff
  call _ _ := hcutOff
  arrayLiteral _ := hcutOff
  index _ _ := hcutOff
  hashLiteral _ := hcutOff

theorem statement_succ (hat : LockstepAt R d₁ d₂) (h : Lockstep R) :
    R (Parser.statement (d₁ + 1)) (Parser.statement (d₂ + 1)) := by
  rw [Parser.statement, Parser.statement]
  refine h.bind h.current fun token ↦ ?_
  split
  · exact hat.letStatement
  · exact hat.returnStatement
  · exact h.failed
  · exact hat.expressionStatement

theorem letStatement_succ (hat : LockstepAt R d₁ d₂) (h : Lockstep R) :
    R (Parser.letStatement (d₁ + 1)) (Parser.letStatement (d₂ + 1)) := by
  rw [Parser.letStatement, Parser.letStatement]
  refine h.bind h.current fun token ↦ h.bind (h.expect _) fun _ ↦ ?_
  refine h.bind h.current fun name ↦ h.bind (h.expect _) fun _ ↦ h.bind h.advance fun _ ↦ ?_
  refine h.bind (h.optional (hat.expression _)) fun found ↦ ?_
  cases found with
  | none => exact h.refuse ⟨rfl, nofun, nofun⟩ nofun
  | some value => exact h.bind (h.accept _) fun _ ↦ h.pure _

theorem returnStatement_succ (hat : LockstepAt R d₁ d₂) (h : Lockstep R) :
    R (Parser.returnStatement (d₁ + 1)) (Parser.returnStatement (d₂ + 1)) := by
  rw [Parser.returnStatement, Parser.returnStatement]
  refine h.bind h.current fun token ↦ h.bind h.advance fun _ ↦ ?_
  refine h.bind (h.optional (hat.expression _)) fun found ↦ ?_
  cases found with
  | none => exact h.refuse ⟨rfl, nofun, nofun⟩ nofun
  | some value => exact h.bind (h.accept _) fun _ ↦ h.pure _

theorem expressionStatement_succ (hat : LockstepAt R d₁ d₂) (h : Lockstep R) :
    R (Parser.expressionStatement (d₁ + 1)) (Parser.expressionStatement (d₂ + 1)) := by
  rw [Parser.expressionStatement, Parser.expressionStatement]
  refine h.bind h.current fun token ↦ h.bind hat.required fun value ↦ ?_
  exact h.bind (h.accept _) fun _ ↦ h.pure _

theorem block_succ (hat : LockstepAt R d₁ d₂) (h : Lockstep R) :
    R (Parser.block (d₁ + 1)) (Parser.block (d₂ + 1)) := by
  rw [Parser.block, Parser.block]
  refine h.bind h.current fun token ↦ h.bind h.advance fun _ ↦ h.bind h.remaining fun bound ↦ ?_
  exact h.bind (h.statementsToBrace hat.statement _ _) fun statements ↦ h.pure _

theorem start (hat : LockstepAt R d₁ d₂) (h : Lockstep R) (token : Token) :
    R (start d₁ token) (Parser.start d₂ token) := by
  rw [Parser.start, Parser.start]
  split
  · exact h.pure _
  · exact h.integerLiteral token
  · exact h.pure _
  · exact h.booleanLiteral token
  · exact h.booleanLiteral token
  · exact hat.unary token
  · exact hat.unary token
  · exact hat.grouped
  · exact hat.conditional token
  · exact hat.functionLiteral token
  · exact hat.arrayLiteral token
  · exact hat.hashLiteral token
  · exact h.failed

theorem extend (hat : LockstepAt R d₁ d₂) (h : Lockstep R) (left : Expr) :
    R (extend d₁ left) (Parser.extend d₂ left) := by
  rw [Parser.extend, Parser.extend]
  refine h.bind h.current fun token ↦ ?_
  split
  · exact hat.call token left
  · exact hat.index token left
  · exact hat.binary token left

theorem expression_succ (hat : LockstepAt R d₁ d₂) (h : Lockstep R) (floor : Nat) :
    R (Parser.expression (d₁ + 1) floor) (Parser.expression (d₂ + 1) floor) := by
  have hhalves (depth : Nat) : Parser.expression (depth + 1) floor =
      (current >>= fun token ↦ Parser.start depth token >>= fun left ↦ remaining >>= fun bound ↦
        climb (Parser.extend depth) floor bound left) :=
    funext fun input ↦ Parser.expression_succ depth floor input
  rw [hhalves, hhalves]
  refine h.bind h.current fun token ↦ h.bind (hat.start h token) fun left ↦ ?_
  exact h.bind h.remaining fun bound ↦ h.climb (hat.extend h) floor bound left

theorem required_succ (hat : LockstepAt R d₁ d₂) (h : Lockstep R) :
    R (Parser.required (d₁ + 1)) (Parser.required (d₂ + 1)) := by
  rw [Parser.required, Parser.required]
  exact h.required (hat.expression _)

theorem unary_succ (hat : LockstepAt R d₁ d₂) (h : Lockstep R) (token : Token) :
    R (Parser.unary (d₁ + 1) token) (Parser.unary (d₂ + 1) token) := by
  rw [Parser.unary, Parser.unary]
  refine h.bind h.advance fun _ ↦ h.bind (h.optional (hat.expression _)) fun found ↦ ?_
  cases found with
  | none => exact h.refuse ⟨rfl, nofun, nofun⟩ nofun
  | some right => exact h.pure _

theorem binary_succ (hat : LockstepAt R d₁ d₂) (h : Lockstep R) (token : Token) (left : Expr) :
    R (Parser.binary (d₁ + 1) token left) (Parser.binary (d₂ + 1) token left) := by
  rw [Parser.binary, Parser.binary]
  refine h.bind h.advance fun _ ↦ h.bind (h.optional (hat.expression _)) fun found ↦ ?_
  cases found with
  | none => exact h.refuse ⟨rfl, nofun, nofun⟩ nofun
  | some right => exact h.pure _

theorem grouped_succ (hat : LockstepAt R d₁ d₂) (h : Lockstep R) :
    R (Parser.grouped (d₁ + 1)) (Parser.grouped (d₂ + 1)) := by
  rw [Parser.grouped, Parser.grouped]
  refine h.bind h.advance fun _ ↦ h.bind hat.required fun inner ↦ ?_
  exact h.bind (h.expect _) fun _ ↦ h.pure _

theorem conditional_succ (hat : LockstepAt R d₁ d₂) (h : Lockstep R) (token : Token) :
    R (Parser.conditional (d₁ + 1) token) (Parser.conditional (d₂ + 1) token) := by
  rw [Parser.conditional, Parser.conditional]
  refine h.bind (h.expect _) fun _ ↦ h.bind h.advance fun _ ↦ ?_
  refine h.bind hat.required fun condition ↦ h.bind (h.expect _) fun _ ↦ ?_
  refine h.bind (h.expect _) fun _ ↦ h.bind hat.block fun consequence ↦ ?_
  refine h.bind (h.accept _) fun accepted ↦ ?_
  split_ifs
  · exact h.bind (h.expect _) fun _ ↦ h.bind hat.block fun alternative ↦ h.pure _
  · exact h.pure _

theorem functionLiteral_succ (hat : LockstepAt R d₁ d₂) (h : Lockstep R) (token : Token) :
    R (Parser.functionLiteral (d₁ + 1) token) (Parser.functionLiteral (d₂ + 1) token) := by
  rw [Parser.functionLiteral, Parser.functionLiteral]
  refine h.bind (h.expect _) fun _ ↦ h.bind h.parameters fun names ↦ ?_
  exact h.bind (h.expect _) fun _ ↦ h.bind hat.block fun body ↦ h.pure _

theorem items_succ (hat : LockstepAt R d₁ d₂) (h : Lockstep R) (close : Kind) :
    R (Parser.items (d₁ + 1) close) (Parser.items (d₂ + 1) close) := by
  rw [Parser.items, Parser.items]
  refine h.bind (h.accept _) fun accepted ↦ ?_
  split_ifs
  · exact h.pure _
  · refine h.bind h.advance fun _ ↦ h.bind hat.required fun first ↦ ?_
    refine h.bind h.remaining fun bound ↦ ?_
    refine h.bind (h.itemsAfterComma hat.required _ _) fun found ↦ ?_
    exact h.bind (h.expect _) fun _ ↦ h.pure _

theorem call_succ (hat : LockstepAt R d₁ d₂) (h : Lockstep R) (token : Token) (callee : Expr) :
    R (Parser.call (d₁ + 1) token callee) (Parser.call (d₂ + 1) token callee) := by
  rw [Parser.call, Parser.call]
  exact h.bind (hat.items _) fun arguments ↦ h.pure _

theorem arrayLiteral_succ (hat : LockstepAt R d₁ d₂) (h : Lockstep R) (token : Token) :
    R (Parser.arrayLiteral (d₁ + 1) token) (Parser.arrayLiteral (d₂ + 1) token) := by
  rw [Parser.arrayLiteral, Parser.arrayLiteral]
  exact h.bind (hat.items _) fun elements ↦ h.pure _

theorem index_succ (hat : LockstepAt R d₁ d₂) (h : Lockstep R) (token : Token) (left : Expr) :
    R (Parser.index (d₁ + 1) token left) (Parser.index (d₂ + 1) token left) := by
  rw [Parser.index, Parser.index]
  refine h.bind h.advance fun _ ↦ h.bind hat.required fun place ↦ ?_
  exact h.bind (h.expect _) fun _ ↦ h.pure _

theorem hashLiteral_succ (hat : LockstepAt R d₁ d₂) (h : Lockstep R) (token : Token) :
    R (Parser.hashLiteral (d₁ + 1) token) (Parser.hashLiteral (d₂ + 1) token) := by
  rw [Parser.hashLiteral, Parser.hashLiteral]
  refine h.bind h.remaining fun bound ↦ h.bind (h.pairsToBrace hat.required _ _) fun pairs ↦ ?_
  exact h.bind (h.expect _) fun _ ↦ h.pure _

theorem succ (hat : LockstepAt R d₁ d₂) (h : Lockstep R) : LockstepAt R (d₁ + 1) (d₂ + 1) where
  statement := hat.statement_succ h
  letStatement := hat.letStatement_succ h
  returnStatement := hat.returnStatement_succ h
  expressionStatement := hat.expressionStatement_succ h
  block := hat.block_succ h
  expression := hat.expression_succ h
  required := hat.required_succ h
  unary := hat.unary_succ h
  binary := hat.binary_succ h
  grouped := hat.grouped_succ h
  conditional := hat.conditional_succ h
  functionLiteral := hat.functionLiteral_succ h
  items := hat.items_succ h
  call := hat.call_succ h
  arrayLiteral := hat.arrayLiteral_succ h
  index := hat.index_succ h
  hashLiteral := hat.hashLiteral_succ h

/-- As many more nested calls in both parses. -/
theorem add (hat : LockstepAt R d₁ d₂) (h : Lockstep R) (more : Nat) :
    LockstepAt R (d₁ + more) (d₂ + more) := by
  induction more with
  | zero => exact hat
  | succ more ih => exact ih.succ h

/-- The same number of nested calls in both parses. -/
theorem same (h : Lockstep R) (hcutOff : ∀ {α : Type}, R (cutOff : Attempt α) cutOff)
    (depth : Nat) : LockstepAt R depth depth := by
  have hat := (LockstepAt.zero hcutOff).add h depth
  rwa [Nat.zero_add] at hat

end LockstepAt

end MonkeyLang.Parser
