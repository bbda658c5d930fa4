import MonkeyLang.Token

/-!
Parse errors. A diagnostic has a cause and the details that belong to it; a detail that is not
given reads `None` in the message.
-/

set_option autoImplicit false

namespace MonkeyLang

namespace Diagnostic

inductive Cause where
  | unexpectedToken
  | noExpression
  | initialValueNotFound
  | returnValueNotFound
  | unaryOperandNotFound
  | binaryOperandNotFound
  | illegalInteger
  | illegalBoolean
  | nestingTooDeep
  deriving DecidableEq, Repr

namespace Cause

def name : Cause → String
  | unexpectedToken => "UNEXPECTED_TOKEN"
  | noExpression => "NO_PREFIX_PARSE"
  | initialValueNotFound => "INITIAL_VALUE_NOT_FOUND"
  | returnValueNotFound => "RETURN_VALUE_NOT_FOUND"
  | unaryOperandNotFound => "PREFIX_RIGHT_VALUE_NOT_FOUND"
  | binaryOperandNotFound => "INFIX_RIGHT_VALUE_NOT_FOUND"
  | illegalInteger => "ILLEGAL_INTEGER_LITERAL"
  | illegalBoolean => "ILLEGAL_BOOLEAN_LITERAL"
  | nestingTooDeep => "NESTING_TOO_DEEP"

def all : List Cause :=
  [unexpectedToken, noExpression, initialValueNotFound, returnValueNotFound, unaryOperandNotFound,
   binaryOperandNotFound, illegalInteger, illegalBoolean, nestingTooDeep]

def ofName? (name : String) : Option Cause :=
  all.find? (·.name = name)

end Cause

end Diagnostic

structure Diagnostic where
  cause : Diagnostic.Cause
  expected : Option Kind := none
  actual : Option Kind := none
  name : Option String := none
  operator : Option String := none
  literal : Option String := none
  deriving DecidableEq, Repr

namespace Diagnostic

def unexpectedToken (expected actual : Kind) : Diagnostic :=
  { cause := .unexpectedToken, expected, actual }

def noExpression (token : Token) : Diagnostic :=
  { cause := .noExpression, actual := token.kind, literal := token.literal }

def initialValueNotFound (name : String) : Diagnostic :=
  { cause := .initialValueNotFound, name }

def returnValueNotFound : Diagnostic :=
  { cause := .returnValueNotFound }

def unaryOperandNotFound (operator : String) : Diagnostic :=
  { cause := .unaryOperandNotFound, operator }

def binaryOperandNotFound (operator : String) : Diagnostic :=
  { cause := .binaryOperandNotFound, operator }

def illegalInteger (literal : String) : Diagnostic :=
  { cause := .illegalInteger, literal }

def illegalBoolean (literal : String) : Diagnostic :=
  { cause := .illegalBoolean, literal }

def nestingTooDeep : Diagnostic :=
  { cause := .nestingTooDeep }

def kindText (kind : Option Kind) : String :=
  (kind.map Kind.name).getD "None"

def detailText (detail : Option String) : String :=
  detail.getD "None"

def message (d : Diagnostic) : String :=
  match d.cause with
  | .unexpectedToken =>
    "Invalid token is found. Expected to be: " ++ kindText d.expected ++ ", got: " ++
      kindText d.actual
  | .noExpression => "No expression can start with token: " ++ kindText d.actual
  | .initialValueNotFound => "Initial value is not found after '=' for name: " ++ detailText d.name
  | .returnValueNotFound => "Return value is not found after 'return'"
  | .unaryOperandNotFound =>
    "Right value is not found after prefix operator: " ++ detailText d.operator
  | .binaryOperandNotFound =>
    "Right value is not found after infix operator: " ++ detailText d.operator
  | .illegalInteger => "Illegal character found in integer literal: " ++ detailText d.literal
  | .illegalBoolean => "Illegal character found in boolean literal: " ++ detailText d.literal
  | .nestingTooDeep => "Expression nesting is too deep to parse"

end Diagnostic

end MonkeyLang
