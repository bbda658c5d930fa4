import Mathlib.Tactic
import MonkeyLang.Proofs.Grammar

/-!
# Truthful diagnostics

A diagnostic is truthful if it says nothing that is not so: it has exactly the details that belong
to its cause, a kind of token that it blames for starting no expression does start none, and a token
that it calls unexpected is of another kind than the one that was expected.
-/

set_option autoImplicit false

namespace MonkeyLang

open Grammar

namespace Diagnostic

inductive Detail where
  | expected
  | actual
  | name
  | operator
  | literal
  deriving DecidableEq, Repr

/-- The details that belong to a cause. -/
def Cause.details : Cause → List Detail
  | .unexpectedToken => [.expected, .actual]
  | .noExpression => [.actual, .literal]
  | .initialValueNotFound => [.name]
  | .unaryOperandNotFound | .binaryOperandNotFound => [.operator]
  | .illegalInteger | .illegalBoolean => [.literal]
  | .returnValueNotFound | .nestingTooDeep => []

def isGiven (problem : Diagnostic) : Detail → Bool
  | .expected => problem.expected.isSome
  | .actual => problem.actual.isSome
  | .name => problem.name.isSome
  | .operator => problem.operator.isSome
  | .literal => problem.literal.isSome

/-- The details that a diagnostic has. -/
def details (problem : Diagnostic) : List Detail :=
  [.expected, .actual, .name, .operator, .literal].filter problem.isGiven

structure IsTruthful (problem : Diagnostic) : Prop where
  details : problem.details = problem.cause.details
  noExpression : problem.cause = .noExpression →
    ∃ kind, problem.actual = some kind ∧ ¬startsExpression kind
  unexpectedToken : problem.cause = .unexpectedToken → problem.expected ≠ problem.actual

theorem isTruthful_unexpectedToken {expected actual : Kind} (hne : expected ≠ actual) :
    (unexpectedToken expected actual).IsTruthful :=
  ⟨rfl, nofun, fun _ heq ↦ hne (Option.some.inj heq)⟩

theorem isTruthful_noExpression {token : Token} (hkind : ¬startsExpression token.kind) :
    (noExpression token).IsTruthful :=
  ⟨rfl, fun _ ↦ ⟨token.kind, rfl, hkind⟩, nofun⟩

end Diagnostic

end MonkeyLang
