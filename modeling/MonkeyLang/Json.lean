import MonkeyLang.Binary64.Shortest
import MonkeyLang.Entries
import MonkeyLang.Text.Quoted

/-!
JSON values. Integers are exact, other numbers are 64 bit binary, and an object keeps its fields
in the order in which their names first appeared. A value has a type name, a truth value, an
inspected form that quotes text, and a displayed form that shows a text as it is.
-/

set_option autoImplicit false

namespace MonkeyLang

inductive Json where
  | null
  | boolean (value : Bool)
  | integer (value : Int)
  | real (value : Binary64)
  | string (value : String)
  | list (items : List Json)
  | object (fields : List (String × Json))
  deriving Inhabited

namespace Json

def typeName : Json → String
  | null => "NoneType"
  | boolean _ => "bool"
  | integer _ => "int"
  | real _ => "float"
  | string _ => "str"
  | list _ => "list"
  | object _ => "dict"

def truthy : Json → Bool
  | null => false
  | boolean b => b
  | integer n => n ≠ 0
  | real x => !x.isZero
  | string s => s ≠ ""
  | list items => !items.isEmpty
  | object fields => !fields.isEmpty

mutual

def inspect : Json → String
  | null => "None"
  | boolean true => "True"
  | boolean false => "False"
  | integer n => toString n
  | real x => x.text
  | string s => Text.quoted s
  | list items => "[" ++ ", ".intercalate (inspectItems items) ++ "]"
  | object fields => "\x7b" ++ ", ".intercalate (inspectFields fields) ++ "\x7d"

def inspectItems : List Json → List String
  | [] => []
  | item :: rest => item.inspect :: inspectItems rest

def inspectFields : List (String × Json) → List String
  | [] => []
  | (name, value) :: rest => (Text.quoted name ++ ": " ++ value.inspect) :: inspectFields rest

end

def display : Json → String
  | string s => s
  | value => value.inspect

end Json

end MonkeyLang
