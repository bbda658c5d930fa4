import MonkeyLang.Value

/-!
The two texts of a value: the one that programs print, and the inspected one of traces, which
names every class and field. The printed text of a function renders its body, so what stops the
rendering of the body stops the text too. Both texts take nested steps, as many more as the value
is deep.
-/

set_option autoImplicit false

namespace MonkeyLang

def boolText (b : Bool) : String :=
  if b then "true" else "false"

def Closure.text (closure : Closure) : String :=
  "fn(" ++ Identifier.renderList closure.parameters ++ ") " ++ closure.body.render

def Key.text : Key → String
  | .integer n => toString n
  | .string s => s
  | .boolean b => boolText b

mutual

def Value.text : Value → String
  | .integer n => toString n
  | .string s => s
  | .boolean b => boolText b
  | .null => "null"
  | .returned value => value.text
  | .function closure => closure.text
  | .array elements => "[" ++ ", ".intercalate (Value.textEach elements) ++ "]"
  | .hash pairs => "\x7b" ++ ", ".intercalate (Value.textPairs pairs) ++ "\x7d"
  | .builtin _ => "builtin function"
  | .error failure => "Error: " ++ failure.message

def Value.textEach : List Value → List String
  | [] => []
  | value :: rest => value.text :: Value.textEach rest

def Value.textPairs : List (Key × Value) → List String
  | [] => []
  | (key, value) :: rest => (key.text ++ ": " ++ value.text) :: Value.textPairs rest

end

open Halt (within)

mutual

/-- What stops the writing of a value's text first, with this room for nested steps. -/
def Value.obstacle? : Value → Room → Option Halt
  | .returned value, room => within Steps.alone value.obstacle? room
  | .function closure, room => within Steps.inserted closure.body.obstacle? room
  | .array elements, room => Value.obstacleIn? elements room
  | .hash pairs, room => Value.obstacleInPairs? pairs room
  | .integer _, _ | .string _, _ | .boolean _, _ | .null, _ | .builtin _, _ | .error _, _ => none

def Value.obstacleIn? : List Value → Room → Option Halt
  | [], _ => none
  | value :: rest, room =>
    within (Steps.joined + Steps.alone) value.obstacle? room <|> Value.obstacleIn? rest room

def Value.obstacleInPairs? : List (Key × Value) → Room → Option Halt
  | [], _ => none
  | (_, value) :: rest, room =>
    within (Steps.joined + Steps.inserted) value.obstacle? room <|>
      Value.obstacleInPairs? rest room

end

def Failure.inspect (failure : Failure) : String :=
  inspectRecord "ErrorVal"
    [("kind", "<ErrorKind." ++ failure.kind.name ++ ": '" ++ failure.kind.code ++ "'>"),
     ("context", Text.quoted failure.context)]

def Closure.inspect (closure : Closure) : String :=
  inspectRecord "Function"
    [("parameters", inspectSequence (closure.parameters.map Identifier.inspect)),
     ("body", closure.body.inspect)]

def Key.inspect : Key → String
  | .integer n => inspectRecord "Integer" [("value", toString n)]
  | .string s => inspectRecord "String" [("value", Text.quoted s)]
  | .boolean b => inspectRecord "Boolean" [("value", inspectBool b)]

mutual

def Value.inspect : Value → String
  | .integer n => Key.inspect (.integer n)
  | .string s => Key.inspect (.string s)
  | .boolean b => Key.inspect (.boolean b)
  | .null => "NULL"
  | .returned value => inspectRecord "ReturnValue" [("value", value.inspect)]
  | .function closure => closure.inspect
  | .array elements =>
    inspectRecord "Array" [("elements", inspectSequence (Value.inspectEach elements))]
  | .hash pairs =>
    inspectRecord "Hash"
      [("pairs", "\x7b" ++ ", ".intercalate (Value.inspectPairs pairs) ++ "\x7d")]
  | .builtin b => "<builtin " ++ b.name ++ ">"
  | .error failure => failure.inspect

def Value.inspectEach : List Value → List String
  | [] => []
  | value :: rest => value.inspect :: Value.inspectEach rest

def Value.inspectPairs : List (Key × Value) → List String
  | [] => []
  | (key, value) :: rest => (key.inspect ++ ": " ++ value.inspect) :: Value.inspectPairs rest

end

mutual

/-- The nested steps that the inspected form takes. -/
def Value.inspectDepth : Value → Nat
  | .integer _ | .string _ | .boolean _ | .error _ => Steps.record
  | .null | .builtin _ => Steps.alone
  | .returned value => Steps.record + value.inspectDepth
  | .function closure => Steps.record + closure.body.inspectDepth
  | .array elements => Steps.record + (Steps.sequence + Value.inspectDepthIn elements)
  | .hash pairs => Steps.record + (Steps.sequence + Value.inspectDepthInPairs pairs)

def Value.inspectDepthIn : List Value → Nat
  | [] => 0
  | value :: rest => max value.inspectDepth (Value.inspectDepthIn rest)

def Value.inspectDepthInPairs : List (Key × Value) → Nat
  | [] => 0
  | (_, value) :: rest => max value.inspectDepth (Value.inspectDepthInPairs rest)

end

end MonkeyLang
