import MonkeyLang.Failure
import MonkeyLang.Program.Inspect
import MonkeyLang.Program.Render

/-!
The values of running programs. Integers, strings and booleans can be keys of a hash, whose pairs
stand in the order in which their keys were first given. A function knows the frame of variables
it was made in, by number, and has a serial number of its own that tells it from other functions
with the same text. A returned value is wrapped until the call that it ends takes it out, and a
runtime error is a value too.
-/

set_option autoImplicit false

namespace MonkeyLang

inductive Builtin where
  | len
  | first
  | last
  | rest
  | push
  | puts
  deriving DecidableEq, Repr

namespace Builtin

def name : Builtin → String
  | len => "len"
  | first => "first"
  | last => "last"
  | rest => "rest"
  | push => "push"
  | puts => "puts"

def all : List Builtin :=
  [len, first, last, rest, push, puts]

/-- The number of arguments; any number will do where none is given. -/
def arity? : Builtin → Option Nat
  | len | first | last | rest => some 1
  | push => some 2
  | puts => none

/-- The builtin functions by their names. -/
def table : List (String × Builtin) :=
  all.map fun builtin => (builtin.name, builtin)

end Builtin

abbrev FrameId := Nat

structure Closure where
  serial : Nat
  parameters : List Identifier
  body : Block
  frame : FrameId

inductive Key where
  | integer (value : Int)
  | string (value : String)
  | boolean (value : Bool)
  deriving DecidableEq, Repr

inductive Value where
  | integer (value : Int)
  | string (value : String)
  | boolean (value : Bool)
  | null
  | returned (value : Value)
  | function (closure : Closure)
  | array (elements : List Value)
  | hash (pairs : List (Key × Value))
  | builtin (builtin : Builtin)
  | error (failure : Failure)

def Key.toValue : Key → Value
  | .integer n => .integer n
  | .string s => .string s
  | .boolean b => .boolean b

namespace Value

/-- The key that a value is, if it can be one. -/
def key? : Value → Option Key
  | integer n => some (.integer n)
  | string s => some (.string s)
  | boolean b => some (.boolean b)
  | _ => none

theorem key?_eq_some_iff {value : Value} {key : Key} :
    value.key? = some key ↔ value = key.toValue := by
  cases value <;> cases key <;> simp [key?, Key.toValue]

def failure? : Value → Option Failure
  | error failure => some failure
  | _ => none

def isError (value : Value) : Bool :=
  value.failure?.isSome

/-- Only `false` and `null` count as false. -/
def truthy : Value → Bool
  | null => false
  | boolean b => b
  | _ => true

def typeName : Value → String
  | integer _ => "Integer"
  | string _ => "String"
  | boolean _ => "Boolean"
  | null => "Null"
  | returned _ => "ReturnValue"
  | function _ => "Function"
  | array _ => "Array"
  | hash _ => "Hash"
  | builtin _ => "Builtin"
  | error _ => "Error"

end Value

end MonkeyLang
