import MonkeyLang.Diagnostic
import MonkeyLang.Integer
import MonkeyLang.Program
import MonkeyLang.Text.Numeral
import MonkeyLang.Token.Scanner

/-!
Parsing. Statements are parsed by recursive descent and expressions by precedence climbing, over
a list of tokens that the end token follows for ever. Nothing is refused outright: a construct
that cannot be completed records a diagnostic and fails, and the statements go on with the next
token.

Each parsing function takes the number of nested calls that are still allowed. At none left the
whole parse is cut off: the top-level statements completed so far are kept, and a last diagnostic
says that the nesting is too deep.
-/

set_option autoImplicit false

namespace MonkeyLang.Parser

/-- The tokens from the current one on, and the diagnostics so far. -/
structure Input where
  tokens : List Token
  problems : Array Diagnostic

/-- How a construct ends: with a value, with a failure whose reason is among the diagnostics, or
cut off because the nesting is too deep. -/
inductive Outcome (α : Type) where
  | done (value : α) (rest : Input)
  | failed (rest : Input)
  | cutOff (rest : Input)

def Attempt (α : Type) := Input → Outcome α

namespace Attempt

@[always_inline, inline] protected def pure {α : Type} (value : α) : Attempt α :=
  fun input => .done value input

@[always_inline, inline] protected def bind {α β : Type} (first : Attempt α) (next : α → Attempt β) :
    Attempt β :=
  fun input =>
    match first input with
    | .done value rest => next value rest
    | .failed rest => .failed rest
    | .cutOff rest => .cutOff rest

instance : Monad Attempt where
  pure := Attempt.pure
  bind := Attempt.bind

/-- Goes on after a failure, with nothing. -/
@[always_inline, inline] def optional {α : Type} (construct : Attempt α) : Attempt (Option α) :=
  fun input =>
    match construct input with
    | .done value rest => .done (some value) rest
    | .failed rest => .done none rest
    | .cutOff rest => .cutOff rest

end Attempt

def Input.current (input : Input) : Token :=
  input.tokens.headD .endOfInput

def Input.peek (input : Input) : Token :=
  input.tokens.tail.headD .endOfInput

def Input.advance (input : Input) : Input :=
  { input with tokens := input.tokens.tail }

def Input.report (input : Input) (problem : Diagnostic) : Input :=
  { input with problems := input.problems.push problem }

def current : Attempt Token :=
  fun input => .done input.current input

def peekKind : Attempt Kind :=
  fun input => .done input.peek.kind input

def advance : Attempt Unit :=
  fun input => .done () input.advance

def failed {α : Type} : Attempt α :=
  fun input => .failed input

def cutOff {α : Type} : Attempt α :=
  fun input => .cutOff input

/-- Records the diagnostic and fails. -/
def refuse {α : Type} (problem : Diagnostic) : Attempt α :=
  fun input => .failed (input.report problem)

/-- Moves on to the next token, which must be of the given kind. -/
def expect (kind : Kind) : Attempt Unit :=
  fun input =>
    if input.peek.kind = kind then .done () input.advance
    else .failed (input.report (.unexpectedToken kind input.peek.kind))

/-- Moves on if the next token is of the given kind. -/
def accept (kind : Kind) : Attempt Bool :=
  fun input => if input.peek.kind = kind then .done true input.advance else .done false input

/-- Adds a diagnostic to a failure that has given none: the current token starts no expression. -/
@[always_inline, inline] def reportSilence {α : Type} (construct : Attempt α) : Attempt α :=
  fun input =>
    match construct input with
    | .failed rest =>
      if rest.problems.size = input.problems.size then
        .failed (rest.report (.noExpression rest.current))
      else .failed rest
    | outcome => outcome

/-- How tightly an operator binds: equality, comparison, sum, product, prefix operator, call and
index, from loose to tight. Other tokens do not continue an expression. -/
def precedence : Kind → Nat
  | .eq | .notEq => 2
  | .lt | .gt => 3
  | .plus | .minus => 4
  | .slash | .asterisk => 5
  | .lparen => 7
  | .lbracket => 8
  | _ => 1

def lowest : Nat := 1

def unaryPrecedence : Nat := 6

/-- The tokens left. Each round of a loop takes at least one, so they bound its rounds. -/
def remaining : Attempt (List Token) :=
  fun input => .done input.tokens input

/-- The statements up to the closing brace, in reverse. -/
@[specialize] def statementsToBrace (statement : Attempt Stmt) :
    List Token → List Stmt → Attempt (List Stmt)
  | [], _ => refuse (.unexpectedToken .rbrace .endOfInput)
  | _ :: bound, done => do
    match (← current).kind with
    | .rbrace => return done
    | .endOfInput => refuse (.unexpectedToken .rbrace .endOfInput)
    | _ =>
      let found ← statement.optional
      advance
      statementsToBrace statement bound (found.toList ++ done)

/-- The identifiers after each further comma, in reverse. -/
def namesAfterComma : List Token → List Identifier → Attempt (List Identifier)
  | [], done => return done
  | _ :: bound, done => do
    if ← accept .comma then
      expect .identifier
      let token ← current
      namesAfterComma bound (⟨token.origin, token.literal⟩ :: done)
    else return done

/-- The expressions after each further comma, in reverse. -/
@[specialize] def itemsAfterComma (item : Attempt Expr) :
    List Token → List Expr → Attempt (List Expr)
  | [], done => return done
  | _ :: bound, done => do
    if ← accept .comma then
      advance
      let next ← item
      itemsAfterComma item bound (next :: done)
    else return done

/-- The pairs of a hash up to its closing brace, in reverse; a comma may stand before the brace. -/
@[specialize] def pairsToBrace (item : Attempt Expr) :
    List Token → List (Expr × Expr) → Attempt (List (Expr × Expr))
  | [], done => return done
  | _ :: bound, done => do
    if (← peekKind) = .rbrace then return done
    advance
    let key ← item
    expect .colon
    advance
    let value ← item
    if (← peekKind) ≠ .rbrace then expect .comma
    pairsToBrace item bound ((key, value) :: done)

/-- Extends a left operand as long as operators that bind tighter than `floor` follow. -/
@[specialize] def climb (extend : Expr → Attempt Expr) (floor : Nat) :
    List Token → Expr → Attempt Expr
  | [], left => return left
  | _ :: bound, left => do
    if floor < precedence (← peekKind) then
      advance
      let left ← extend left
      climb extend floor bound left
    else return left

def integerLiteral (token : Token) : Attempt Expr :=
  match Text.Numeral.read token.literal with
  | .ok value =>
    if value ≤ int64Max then return .integer token.origin value
    else refuse (.illegalInteger token.literal)
  | .error _ => refuse (.illegalInteger token.literal)

def booleanLiteral (token : Token) : Attempt Expr :=
  if token.literal = "true" then return .boolean token.origin true
  else if token.literal = "false" then return .boolean token.origin false
  else refuse (.illegalBoolean token.literal)

def parameters : Attempt (List Identifier) := do
  if ← accept .rparen then return []
  expect .identifier
  let token ← current
  let names ← namesAfterComma (← remaining) [⟨token.origin, token.literal⟩]
  expect .rparen
  return names.reverse

mutual

def statement : Nat → Attempt Stmt
  | 0 => cutOff
  | depth + 1 => do
    match (← current).kind with
    | .letWord => letStatement depth
    | .returnWord => returnStatement depth
    | .semicolon => failed
    | _ => expressionStatement depth

def letStatement : Nat → Attempt Stmt
  | 0 => cutOff
  | depth + 1 => do
    let token ← current
    expect .identifier
    let name ← current
    expect .assign
    advance
    match ← (expression depth lowest).optional with
    | none => refuse (.initialValueNotFound name.literal)
    | some value =>
      let _ ← accept .semicolon
      return .binding token.origin ⟨name.origin, name.literal⟩ value

def returnStatement : Nat → Attempt Stmt
  | 0 => cutOff
  | depth + 1 => do
    let token ← current
    advance
    match ← (expression depth lowest).optional with
    | none => refuse .returnValueNotFound
    | some value =>
      let _ ← accept .semicolon
      return .returning token.origin value

def expressionStatement : Nat → Attempt Stmt
  | 0 => cutOff
  | depth + 1 => do
    let token ← current
    let value ← required depth
    let _ ← accept .semicolon
    return .expression token.origin value

def block : Nat → Attempt Block
  | 0 => cutOff
  | depth + 1 => do
    let token ← current
    advance
    let statements ← statementsToBrace (statement depth) (← remaining) []
    return .mk token.origin statements.reverse

/-- An expression of operators that bind tighter than `floor`: the shortest one that starts at the
current token, then what follows it. -/
def expression : Nat → Nat → Attempt Expr
  | 0, _ => cutOff
  | depth + 1, floor => do
    let token ← current
    let left ←
      match token.kind with
      | .identifier => pure (.identifier ⟨token.origin, token.literal⟩)
      | .integer => integerLiteral token
      | .string => pure (.string token.origin token.literal)
      | .trueWord | .falseWord => booleanLiteral token
      | .bang | .minus => unary depth token
      | .lparen => grouped depth
      | .ifWord => conditional depth token
      | .functionWord => functionLiteral depth token
      | .lbracket => arrayLiteral depth token
      | .lbrace => hashLiteral depth token
      | _ => failed
    climb (fun left => do
      let token ← current
      match token.kind with
      | .lparen => call depth token left
      | .lbracket => index depth token left
      | _ => binary depth token left) floor (← remaining) left

/-- An expression that must be there. -/
def required : Nat → Attempt Expr
  | 0 => cutOff
  | depth + 1 => reportSilence (expression depth lowest)

def unary : Nat → Token → Attempt Expr
  | 0, _ => cutOff
  | depth + 1, token => do
    advance
    match ← (expression depth unaryPrecedence).optional with
    | none => refuse (.unaryOperandNotFound token.literal)
    | some right => return .unary token.origin token.literal right

def binary : Nat → Token → Expr → Attempt Expr
  | 0, _, _ => cutOff
  | depth + 1, token, left => do
    advance
    match ← (expression depth (precedence token.kind)).optional with
    | none => refuse (.binaryOperandNotFound token.literal)
    | some right => return .binary token.origin left token.literal right

def grouped : Nat → Attempt Expr
  | 0 => cutOff
  | depth + 1 => do
    advance
    let inner ← required depth
    expect .rparen
    return inner

def conditional : Nat → Token → Attempt Expr
  | 0, _ => cutOff
  | depth + 1, token => do
    expect .lparen
    advance
    let condition ← required depth
    expect .rparen
    expect .lbrace
    let consequence ← block depth
    if ← accept .elseWord then
      expect .lbrace
      let alternative ← block depth
      return .conditional token.origin condition consequence (some alternative)
    else return .conditional token.origin condition consequence none

def functionLiteral : Nat → Token → Attempt Expr
  | 0, _ => cutOff
  | depth + 1, token => do
    expect .lparen
    let names ← parameters
    expect .lbrace
    let body ← block depth
    return .function token.origin names body

/-- Expressions separated by commas, up to the given closing token. -/
def items : Nat → Kind → Attempt (List Expr)
  | 0, _ => cutOff
  | depth + 1, close => do
    if ← accept close then return []
    advance
    let first ← required depth
    let found ← itemsAfterComma (required depth) (← remaining) [first]
    expect close
    return found.reverse

def call : Nat → Token → Expr → Attempt Expr
  | 0, _, _ => cutOff
  | depth + 1, token, callee => do
    let arguments ← items depth .rparen
    return .call token.origin callee arguments

def arrayLiteral : Nat → Token → Attempt Expr
  | 0, _ => cutOff
  | depth + 1, token => do
    let elements ← items depth .rbracket
    return .array token.origin elements

def index : Nat → Token → Expr → Attempt Expr
  | 0, _, _ => cutOff
  | depth + 1, token, left => do
    advance
    let place ← required depth
    expect .rbracket
    return .index token.origin left place

def hashLiteral : Nat → Token → Attempt Expr
  | 0, _ => cutOff
  | depth + 1, token => do
    let pairs ← pairsToBrace (required depth) (← remaining) []
    expect .rbrace
    return .hash token.origin pairs.reverse

end

/-- The statements of a program, in reverse, and the input at their end. A cut-off keeps the
statements completed so far and adds its diagnostic. -/
def statements (limit : Nat) : List Token → List Stmt → Input → List Stmt × Input
  | [], done, input => (done, input)
  | _ :: bound, done, input =>
    if input.current.kind = .endOfInput then (done, input)
    else
      match statement limit input with
      | .done found rest => statements limit bound (found :: done) rest.advance
      | .failed rest => statements limit bound done rest.advance
      | .cutOff rest => (done, rest.report .nestingTooDeep)

end Parser

/-- What parsing gives: a program of the statements that could be completed, and why others could
not. -/
structure Parsed where
  program : Program
  problems : List Diagnostic

/-- The nested calls that a parse may make below the statements of the program. -/
def Parser.depthLimit : Nat := 50000

def Program.ofTokens (limit : Nat) (tokens : List Token) : Parsed :=
  let (found, input) := Parser.statements limit tokens [] ⟨tokens, #[]⟩
  ⟨⟨found.reverse⟩, input.problems.toList⟩

def Program.ofSource (source : String) : Parsed :=
  Program.ofTokens Parser.depthLimit (tokenize source)

end MonkeyLang
