import MonkeyLang.Integer
import MonkeyLang.Value

/-!
What operators and indexing make of values. Integers stay within 64 bits: a result outside is an
overflow error that shows the exact result. Division rounds toward zero.
-/

set_option autoImplicit false

namespace MonkeyLang

namespace Value

def ofInt (n : Int) : Value :=
  if n < int64Min ∨ int64Max < n then error ⟨.integerOverflow, toString n⟩ else integer n

def unknownUnary (operator : String) (right : Value) : Value :=
  error ⟨.unknownUnaryOperator, operator ++ right.typeName⟩

def unknownBinary (left : Value) (operator : String) (right : Value) : Value :=
  error ⟨.unknownBinaryOperator, left.typeName ++ " " ++ operator ++ " " ++ right.typeName⟩

def unary (operator : String) (right : Value) : Value :=
  match operator, right with
  | "!", _ => boolean (!right.truthy)
  | "-", integer n => ofInt (-n)
  | _, _ => unknownUnary operator right

def integerBinary (operator : String) (a b : Int) : Value :=
  match operator with
  | "+" => ofInt (a + b)
  | "-" => ofInt (a - b)
  | "*" => ofInt (a * b)
  | "/" =>
    match quotient? a b with
    | none => error ⟨.divisionByZero, ""⟩
    | some q => ofInt q
  | "<" => boolean (a < b)
  | ">" => boolean (b < a)
  | "==" => boolean (a = b)
  | "!=" => boolean (a ≠ b)
  | _ => unknownBinary (integer a) operator (integer b)

def booleanBinary (operator : String) (a b : Bool) : Value :=
  match operator with
  | "==" => boolean (a = b)
  | "!=" => boolean (a ≠ b)
  | _ => unknownBinary (boolean a) operator (boolean b)

def stringBinary (operator : String) (a b : String) : Value :=
  match operator with
  | "+" => string (a ++ b)
  | "==" => boolean (a = b)
  | "!=" => boolean (a ≠ b)
  | _ => unknownBinary (string a) operator (string b)

def binary (operator : String) (left right : Value) : Value :=
  match left, right with
  | integer a, integer b => integerBinary operator a b
  | boolean a, boolean b => booleanBinary operator a b
  | string a, string b => stringBinary operator a b
  | _, _ => unknownBinary left operator right

def invalidHashKey (key : Value) : Value :=
  error ⟨.invalidHashKey, "type: " ++ key.typeName⟩

/-- A place outside an array, and a key that a hash does not have, give `null`. -/
def index (left place : Value) : Value :=
  match left, place with
  | array elements, integer i => if i < 0 then null else (elements[i.toNat]?).getD null
  | hash pairs, _ =>
    match place.key? with
    | some key => (Entries.get? pairs key).getD null
    | none => invalidHashKey place
  | _, _ => error ⟨.indexNotSupported, "type: " ++ left.typeName⟩

end Value

end MonkeyLang
