/-!
Runtime errors of a program: a kind, and a detail that is shown after the label of the kind. The
two kinds of unknown operator share one label.
-/

set_option autoImplicit false

namespace MonkeyLang

namespace Failure

inductive Kind where
  | unknownBinaryOperator
  | unknownUnaryOperator
  | undefinedIdentifier
  | callNonFunction
  | invalidArgument
  | invalidArgumentCount
  | indexNotSupported
  | invalidHashKey
  | divisionByZero
  | integerOverflow
  | depthExceeded
  deriving DecidableEq, Repr

namespace Kind

def code : Kind → String
  | unknownBinaryOperator => "unknown_infix_operator"
  | unknownUnaryOperator => "unknown_prefix_operator"
  | undefinedIdentifier => "undefined_identifier"
  | callNonFunction => "call_non_function_value"
  | invalidArgument => "invalid_argument"
  | invalidArgumentCount => "invalid_number_of_arguments"
  | indexNotSupported => "index_operator_not_supported"
  | invalidHashKey => "invalid_hash_key"
  | divisionByZero => "division_by_zero"
  | integerOverflow => "integer_overflow"
  | depthExceeded => "recursion_depth_exceeded"

def name (kind : Kind) : String :=
  kind.code.map Char.toUpper

def label : Kind → String
  | unknownBinaryOperator | unknownUnaryOperator => "unknown operator"
  | depthExceeded => "maximum recursion depth exceeded"
  | kind => kind.code.map fun c => if c = '_' then ' ' else c

def all : List Kind :=
  [unknownBinaryOperator, unknownUnaryOperator, undefinedIdentifier, callNonFunction,
   invalidArgument, invalidArgumentCount, indexNotSupported, invalidHashKey, divisionByZero,
   integerOverflow, depthExceeded]

def ofName? (name : String) : Option Kind :=
  all.find? (·.name = name)

end Kind

end Failure

structure Failure where
  kind : Failure.Kind
  context : String := ""
  deriving DecidableEq, Repr

def Failure.message (failure : Failure) : String :=
  if failure.context = "" then failure.kind.label
  else failure.kind.label ++ " - " ++ failure.context

end MonkeyLang
