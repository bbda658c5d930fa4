import Mathlib.Tactic
import MonkeyLang.Program.Parser

/-!
# Running a parse step by step

A parse is a chain of attempts, each of which ends with a value, fails, or is cut off. This module
opens such a chain. The lemmas on `current`, `advance`, `expect`, `accept` and the others say what
is left of a chain after its first step, so that a chain of primitive steps is run by rewriting
with them, and `bind_eq_done_iff` opens a chain behind a step that is itself a parse.

`Attempt.Reads` is the success that the completeness of the parser is stated with: the value is
the given one, the input stands on the last token of what was read, and no diagnostic was added.
An attempt that is cut off counts as a success, because nothing is said about inputs that are
nested deeper than the limit.

`Parser.start` and `Parser.extend` name the two halves of an expression: the shortest expression
that starts at a token, and one operator, call or index behind an expression.
-/

set_option autoImplicit false

namespace MonkeyLang.Parser

variable {α β : Type}

/-! ### The input -/

@[simp] theorem Input.current_cons (token : Token) (tokens : List Token)
    (problems : Array Diagnostic) : Input.current ⟨token :: tokens, problems⟩ = token :=
  rfl

@[simp] theorem Input.peek_cons (token : Token) (tokens : List Token)
    (problems : Array Diagnostic) :
    Input.peek ⟨token :: tokens, problems⟩ = tokens.headD .endOfInput :=
  rfl

@[simp] theorem Input.advance_cons (token : Token) (tokens : List Token)
    (problems : Array Diagnostic) :
    Input.advance ⟨token :: tokens, problems⟩ = ⟨tokens, problems⟩ :=
  rfl

@[simp] theorem Input.problems_advance (input : Input) : input.advance.problems = input.problems :=
  rfl

@[simp] theorem Input.tokens_report (input : Input) (problem : Diagnostic) :
    (input.report problem).tokens = input.tokens :=
  rfl

@[simp] theorem Input.problems_report (input : Input) (problem : Diagnostic) :
    (input.report problem).problems = input.problems.push problem :=
  rfl

/-- The next token is the current one of the input moved on by one. -/
theorem Input.peek_eq_current_advance (input : Input) : input.peek = input.advance.current :=
  rfl

theorem Input.length_advance (input : Input) :
    input.advance.tokens.length = input.tokens.length - 1 :=
  List.length_tail

/-- An input whose current token is not the end token has that token in front. -/
theorem Input.tokens_eq_cons {input : Input} (hkind : input.current.kind ≠ .endOfInput) :
    input.tokens = input.current :: input.advance.tokens := by
  obtain ⟨tokens, problems⟩ := input
  cases tokens with
  | nil => exact absurd rfl hkind
  | cons token tokens => rfl

/-! ### One step of a chain -/

section Steps

variable (next : α → Attempt β) (input : Input)

theorem bind_apply (first : Attempt α) :
    (first >>= next) input =
      match first input with
      | .done value rest => next value rest
      | .failed rest => .failed rest
      | .cutOff rest => .cutOff rest :=
  rfl

instance : LawfulMonad Attempt :=
  .mk' _
    (fun attempt ↦ funext fun input ↦ by
      show (attempt >>= pure) input = attempt input
      rw [bind_apply]
      cases attempt input <;> rfl)
    (fun _ _ ↦ rfl)
    (fun first second third ↦ funext fun input ↦ by
      rw [bind_apply, bind_apply, bind_apply]
      cases first input <;> rfl)

@[simp] theorem pure_apply (value : α) : (pure value : Attempt α) input = .done value input :=
  rfl

@[simp] theorem pure_bind_apply (value : α) : (pure value >>= next) input = next value input :=
  rfl

@[simp] theorem refuse_apply (problem : Diagnostic) :
    (refuse problem : Attempt α) input = .failed (input.report problem) :=
  rfl

@[simp] theorem failed_apply : (failed : Attempt α) input = .failed input :=
  rfl

@[simp] theorem failed_bind_apply : (failed >>= next) input = .failed input :=
  rfl

@[simp] theorem cutOff_apply : (cutOff : Attempt α) input = .cutOff input :=
  rfl

@[simp] theorem current_bind_apply (next : Token → Attempt β) :
    (current >>= next) input = next input.current input :=
  rfl

@[simp] theorem peekKind_bind_apply (next : Kind → Attempt β) :
    (peekKind >>= next) input = next input.peek.kind input :=
  rfl

@[simp] theorem advance_bind_apply (next : Unit → Attempt β) :
    (advance >>= next) input = next () input.advance :=
  rfl

@[simp] theorem remaining_bind_apply (next : List Token → Attempt β) :
    (remaining >>= next) input = next input.tokens input :=
  rfl

theorem expect_bind_apply (kind : Kind) (next : Unit → Attempt β) :
    (expect kind >>= next) input =
      if input.peek.kind = kind then next () input.advance
      else .failed (input.report (.unexpectedToken kind input.peek.kind)) := by
  rw [bind_apply, expect]
  split_ifs <;> rfl

theorem accept_bind_apply (kind : Kind) (next : Bool → Attempt β) :
    (accept kind >>= next) input =
      if input.peek.kind = kind then next true input.advance else next false input := by
  rw [bind_apply, accept]
  split_ifs <;> rfl

end Steps

/-! ### Chains that end with a value -/

/-- A chain ends with a value exactly if its first attempt does and the rest of it then does. -/
theorem bind_eq_done_iff {first : Attempt α} {next : α → Attempt β} {input rest : Input}
    {value : β} :
    (first >>= next) input = .done value rest ↔
      ∃ found middle, first input = .done found middle ∧ next found middle = .done value rest := by
  rw [bind_apply]
  cases first input <;> simp [and_assoc]

/-- A chain fails exactly if its first attempt fails, or the rest of it does. -/
theorem bind_eq_failed_iff {first : Attempt α} {next : α → Attempt β} {input rest : Input} :
    (first >>= next) input = .failed rest ↔
      first input = .failed rest ∨
        ∃ found middle, first input = .done found middle ∧ next found middle = .failed rest := by
  rw [bind_apply]
  cases first input <;> simp [and_assoc]

theorem pure_eq_done_iff {found value : α} {input rest : Input} :
    (pure found : Attempt α) input = .done value rest ↔ found = value ∧ input = rest := by
  simp

theorem expect_bind_eq_done_iff {kind : Kind} {next : Unit → Attempt α} {input rest : Input}
    {value : α} :
    (expect kind >>= next) input = .done value rest ↔
      input.peek.kind = kind ∧ next () input.advance = .done value rest := by
  rw [expect_bind_apply]
  split_ifs with hkind <;> simp [hkind]

/-- A choice on whether the next token is of a kind. -/
theorem accept_ite_eq_done_iff {kind : Kind} {yes no : Attempt α} {input rest : Input}
    {value : α} :
    (accept kind >>= fun accepted ↦ if accepted then yes else no) input = .done value rest ↔
      (input.peek.kind = kind ∧ yes input.advance = .done value rest) ∨
        (input.peek.kind ≠ kind ∧ no input = .done value rest) := by
  rw [accept_bind_apply]
  split_ifs with hkind <;> simp_all

theorem optional_eq_some_iff {construct : Attempt α} {input rest : Input} {value : α} :
    construct.optional input = .done (some value) rest ↔ construct input = .done value rest := by
  unfold Attempt.optional
  cases construct input <;> simp

theorem optional_eq_none_iff {construct : Attempt α} {input rest : Input} :
    construct.optional input = .done none rest ↔ construct input = .failed rest := by
  unfold Attempt.optional
  cases construct input <;> simp

theorem optional_ne_failed {construct : Attempt α} {input rest : Input} :
    construct.optional input ≠ .failed rest := by
  unfold Attempt.optional
  cases construct input <;> simp

theorem reportSilence_eq_done_iff {construct : Attempt α} {input rest : Input} {value : α} :
    reportSilence construct input = .done value rest ↔ construct input = .done value rest := by
  unfold reportSilence
  cases construct input with
  | failed middle =>
    simp only [reduceCtorEq, iff_false]
    split_ifs <;> simp
  | done found middle => simp
  | cutOff middle => simp

/-! ### Reading tokens -/

/-- Unless it was cut off, the outcome is the value, at an input that stands on the last token that
was read, with `after` behind it and the given diagnostics. -/
def Outcome.Yields (value : α) (after : List Token) (problems : Array Diagnostic) :
    Outcome α → Prop
  | .done found rest => found = value ∧ ∃ last, rest = ⟨last :: after, problems⟩
  | .failed _ => False
  | .cutOff _ => True

/-- The attempt reads the tokens in front of `after` as the value, without a diagnostic. -/
def Attempt.Reads (construct : Attempt α) (tokens : List Token) (value : α)
    (after : List Token) : Prop :=
  ∀ problems, (construct ⟨tokens, problems⟩).Yields value after problems

section Reads

variable {value : α} {found : β} {tokens middle after : List Token} {token last : Token}

theorem reads_pure : (pure value : Attempt α).Reads (last :: after) value after :=
  fun _ ↦ ⟨rfl, last, rfl⟩

/-- A chain reads what its second part reads from every token on which the first part may end. -/
theorem reads_bind {first : Attempt β} {next : β → Attempt α}
    (hfirst : first.Reads tokens found middle)
    (hnext : ∀ last, (next found).Reads (last :: middle) value after) :
    (first >>= next).Reads tokens value after := by
  intro problems
  have hyields := hfirst problems
  rw [bind_apply]
  cases houtcome : first ⟨tokens, problems⟩ with
  | done other rest =>
    rw [houtcome] at hyields
    obtain ⟨rfl, last, rfl⟩ := hyields
    exact hnext last problems
  | failed rest =>
    rw [houtcome] at hyields
    exact hyields.elim
  | cutOff rest => trivial

theorem reads_optional {construct : Attempt α} (hreads : construct.Reads tokens value after) :
    construct.optional.Reads tokens (some value) after := by
  intro problems
  have hyields := hreads problems
  unfold Attempt.optional
  cases houtcome : construct ⟨tokens, problems⟩ with
  | done other rest =>
    rw [houtcome] at hyields
    obtain ⟨rfl, last, rfl⟩ := hyields
    exact ⟨rfl, last, rfl⟩
  | failed rest =>
    rw [houtcome] at hyields
    exact hyields.elim
  | cutOff rest => trivial

theorem reads_reportSilence {construct : Attempt α}
    (hreads : construct.Reads tokens value after) :
    (reportSilence construct).Reads tokens value after := by
  intro problems
  have hyields := hreads problems
  unfold reportSilence
  cases houtcome : construct ⟨tokens, problems⟩ with
  | done other rest => rwa [houtcome] at hyields
  | failed rest =>
    rw [houtcome] at hyields
    exact hyields.elim
  | cutOff rest => trivial

theorem reads_current {next : Token → Attempt α}
    (hnext : (next token).Reads (token :: tokens) value after) :
    (current >>= next).Reads (token :: tokens) value after :=
  hnext

theorem reads_peekKind {next : Kind → Attempt α}
    (hnext : (next (tokens.headD .endOfInput).kind).Reads (token :: tokens) value after) :
    (peekKind >>= next).Reads (token :: tokens) value after :=
  hnext

theorem reads_advance {next : Unit → Attempt α} (hnext : (next ()).Reads tokens value after) :
    (advance >>= next).Reads (token :: tokens) value after :=
  hnext

theorem reads_remaining {next : List Token → Attempt α}
    (hnext : (next tokens).Reads tokens value after) :
    (remaining >>= next).Reads tokens value after :=
  hnext

theorem reads_expect {kind : Kind} {next : Unit → Attempt α} (hkind : token.kind = kind)
    (hnext : (next ()).Reads (token :: tokens) value after) :
    (expect kind >>= next).Reads (last :: token :: tokens) value after := by
  intro problems
  rw [expect_bind_apply, Input.peek_cons, List.headD_cons, if_pos hkind]
  exact hnext problems

theorem reads_accept_true {kind : Kind} {next : Bool → Attempt α} (hkind : token.kind = kind)
    (hnext : (next true).Reads (token :: tokens) value after) :
    (accept kind >>= next).Reads (last :: token :: tokens) value after := by
  intro problems
  rw [accept_bind_apply, Input.peek_cons, List.headD_cons, if_pos hkind]
  exact hnext problems

theorem reads_accept_false {kind : Kind} {next : Bool → Attempt α}
    (hkind : (tokens.headD .endOfInput).kind ≠ kind)
    (hnext : (next false).Reads (last :: tokens) value after) :
    (accept kind >>= next).Reads (last :: tokens) value after := by
  intro problems
  rw [accept_bind_apply, Input.peek_cons, if_neg hkind]
  exact hnext problems

end Reads

/-! ### The two halves of an expression -/

/-- The shortest expression that starts at the current token. -/
def start (depth : Nat) (token : Token) : Attempt Expr :=
  match token.kind with
  | .identifier => pure (.identifier ⟨token.origin, token.literal⟩)
  | .integer => integerLiteral token
  | .string => pure (.string token.origin token.literal)
  | .trueWord | .falseWord => booleanLiteral token
  | .bang | .minus => unary depth token
  | .lparen => grouped depth
  | .ifWord => conditional depth token
  | .functionWord => functionLiteral depth token
  | .lbracket => arrayLiteral depth token
  | .lbrace => hashLiteral depth token
  | _ => failed

/-- One more call, index or binary operator behind an expression. -/
def extend (depth : Nat) (left : Expr) : Attempt Expr := do
  let token ← current
  match token.kind with
  | .lparen => call depth token left
  | .lbracket => index depth token left
  | _ => binary depth token left

theorem start_apply (depth : Nat) (token : Token) (input : Input) :
    start depth token input =
      match token.kind with
      | .identifier => .done (.identifier ⟨token.origin, token.literal⟩) input
      | .integer => integerLiteral token input
      | .string => .done (.string token.origin token.literal) input
      | .trueWord | .falseWord => booleanLiteral token input
      | .bang | .minus => unary depth token input
      | .lparen => grouped depth input
      | .ifWord => conditional depth token input
      | .functionWord => functionLiteral depth token input
      | .lbracket => arrayLiteral depth token input
      | .lbrace => hashLiteral depth token input
      | _ => .failed input := by
  rw [start]
  cases token.kind <;> rfl

theorem extend_apply (depth : Nat) (left : Expr) (input : Input) :
    extend depth left input =
      match input.current.kind with
      | .lparen => call depth input.current left input
      | .lbracket => index depth input.current left input
      | _ => binary depth input.current left input := by
  rw [extend, current_bind_apply]
  cases input.current.kind <;> rfl

theorem expression_succ (depth floor : Nat) (input : Input) :
    expression (depth + 1) floor input =
      (start depth input.current >>= fun left ↦
        remaining >>= fun bound ↦ climb (extend depth) floor bound left) input := by
  rw [expression, start, current_bind_apply]
  cases input.current.kind <;> rfl

/-! ### Statements -/

theorem statement_succ_apply (depth : Nat) (input : Input) :
    statement (depth + 1) input =
      match input.current.kind with
      | .letWord => letStatement depth input
      | .returnWord => returnStatement depth input
      | .semicolon => .failed input
      | _ => expressionStatement depth input := by
  rw [statement, current_bind_apply]
  cases input.current.kind <;> rfl

theorem statementsToBrace_cons_apply (statement : Attempt Stmt) (first : Token)
    (bound : List Token) (done : List Stmt) (input : Input) :
    statementsToBrace statement (first :: bound) done input =
      match input.current.kind with
      | .rbrace => .done done input
      | .endOfInput => .failed (input.report (.unexpectedToken .rbrace .endOfInput))
      | _ =>
        (statement.optional >>= fun found ↦ advance >>= fun _ ↦
          statementsToBrace statement bound (found.toList ++ done)) input := by
  rw [statementsToBrace, current_bind_apply]
  cases input.current.kind <;> rfl

theorem statements_of_end (limit : Nat) (bound : List Token) (done : List Stmt) {input : Input}
    (hend : input.current.kind = .endOfInput) :
    statements limit bound done input = (done, input) := by
  cases bound with
  | nil => rfl
  | cons first bound => rw [statements, if_pos hend]

theorem statements_cons (limit : Nat) (first : Token) (bound : List Token) (done : List Stmt)
    {input : Input} (hend : input.current.kind ≠ .endOfInput) :
    statements limit (first :: bound) done input =
      match statement limit input with
      | .done found rest => statements limit bound (found :: done) rest.advance
      | .failed rest => statements limit bound done rest.advance
      | .cutOff rest => (done, rest.report .nestingTooDeep) :=
  if_neg hend

end MonkeyLang.Parser
