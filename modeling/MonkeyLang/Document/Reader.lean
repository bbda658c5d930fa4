import MonkeyLang.Program
import MonkeyLang.Text.Numeral

/-!
Reading trees from JSON documents. Parts are read in a fixed order and the first fault is
reported. Fields that a class does not have are ignored. Texts may be given by any value, in its
displayed form, booleans by any value, as its truth value, and integers by whatever spells one.
-/

set_option autoImplicit false

namespace MonkeyLang.Document

/-- What is wrong with a field of an object whose class is known. -/
inductive Defect where
  | missing (field : String)
  | notSequence (typeName : String)
  | tooFewItems (count : Nat)
  | tooManyItems
  | notNumeral (text : String)
  | tooManyDigits (count : Nat)
  | notNumber (typeName : String)
  | notANumber

inductive Fault where
  | notObject
  | invalidToken (document : Json)
  | unknownClass (className : Json)
  | wrongClass (slot expected found : String)
  | notList (slot : String)
  | malformed (className : String) (defect : Defect)
  /-- An infinite number in the place of an integer. -/
  | infinite

def Defect.message : Defect → String
  | .missing field => Text.quoted field
  | .notSequence typeName => "cannot unpack non-iterable " ++ typeName ++ " object"
  | .tooFewItems count =>
    "not enough values to unpack (expected 2, got " ++ toString count ++ ")"
  | .tooManyItems => "too many values to unpack (expected 2)"
  | .notNumeral text =>
    "invalid literal for int() with base 10: " ++
      .ofList ((Text.quoted text).toList.take 200)
  | .tooManyDigits count =>
    "Exceeds the limit (" ++ toString Text.Numeral.maxDigits ++
      " digits) for integer string conversion: value has " ++ toString count ++
      " digits; use sys.set_int_max_str_digits() to increase the limit"
  | .notNumber typeName =>
    "int() argument must be a string, a bytes-like object or a real number, not '" ++ typeName ++ "'"
  | .notANumber => "cannot convert float NaN to integer"

def Fault.message : Fault → String
  | .notObject => "Invalid AST object"
  | .invalidToken document => "invalid token: " ++ document.inspect
  | .unknownClass className => "Unknown AST node type: " ++ className.display
  | .wrongClass slot expected found => slot ++ " must be " ++ expected ++ ", got " ++ found
  | .notList slot => slot ++ " must be a list"
  | .malformed className defect => "malformed " ++ className ++ " node: " ++ defect.message
  | .infinite => "cannot convert float infinity to integer"

/-- A place for a node: how messages call it, which nodes fit, and what is taken from them. -/
structure Slot (α : Type) where
  label : String
  expected : String
  select : Node → Option α

def Slot.take {α : Type} (slot : Slot α) (found : Option Node) : Except Fault α :=
  match found.bind slot.select with
  | some part => .ok part
  | none =>
    .error (.wrongClass slot.label slot.expected ((found.map Node.className).getD "NoneType"))

def programSlot (label : String) : Slot Program where
  label
  expected := "Program"
  select
    | .program tree => some tree
    | _ => none

def statementSlot (label : String) : Slot Stmt where
  label
  expected := "Statement"
  select
    | .statement tree => some tree
    | _ => none

def blockSlot (label : String) : Slot Block where
  label
  expected := "BlockStatement"
  select
    | .statement (.block body) => some body
    | _ => none

def expressionSlot (label : String) : Slot Expr where
  label
  expected := "Expression"
  select
    | .expression tree => some tree
    | _ => none

def identifierSlot (label : String) : Slot Identifier where
  label
  expected := "Identifier"
  select
    | .expression (.identifier name) => some name
    | _ => none

def origin? : Json → Option Origin
  | .object fields =>
    match Entries.get? fields "kind", Entries.get? fields "literal" with
    | some (.string name), some literal => (Kind.ofName? name).map (⟨·, literal⟩)
    | _, _ => none
  | _ => none

def readOrigin (fields : List (String × Json)) : Except Fault Origin :=
  let token := (Entries.get? fields "token").getD .null
  match origin? token with
  | some origin => .ok origin
  | none => .error (.invalidToken token)

/-- A field that an object of the class must have. -/
def required (className : String) (fields : List (String × Json)) (name : String) :
    Except Fault { value : Json // sizeOf value < sizeOf fields } :=
  match h : Entries.get? fields name with
  | some value => .ok ⟨value, Entries.sizeOf_get? h⟩
  | none => .error (.malformed className (.missing name))

def readInteger (className : String) : Json → Except Fault Int
  | .integer n => .ok n
  | .boolean b => .ok (if b then 1 else 0)
  | .real (.finite negative mantissa exponent) => .ok (Binary64.truncate negative mantissa exponent)
  | .real (.infinity _) => .error .infinite
  | .real .nan => .error (.malformed className .notANumber)
  | .string text =>
    match Text.Numeral.read text with
    | .ok n => .ok n
    | .error .malformed => .error (.malformed className (.notNumeral text))
    | .error (.tooLong count) => .error (.malformed className (.tooManyDigits count))
  | value => .error (.malformed className (.notNumber value.typeName))

/-- Why a sequence of this many items, other than a list of two, is no pair of nodes. -/
def pairFault (className : String) (count : Nat) : Fault :=
  if count < 2 then .malformed className (.tooFewItems count)
  else if count = 2 then .notObject
  else .malformed className .tooManyItems

/-- Why a value other than a list of two is no pair of nodes. The characters of a text and the
names of an object count as items, and they are texts, not nodes. -/
def notPair (className : String) : Json → Fault
  | .list items => pairFault className items.length
  | .string text => pairFault className text.length
  | .object fields => pairFault className fields.length
  | value => .malformed className (.notSequence value.typeName)

mutual

/-- The node of a document; `null` is the document of none. -/
def read (document : Json) : Except Fault (Option Node) :=
  match document with
  | .null => .ok none
  | .object fields => return some (← readObject fields)
  | _ => .error .notObject
termination_by sizeOf document

def readObject (fields : List (String × Json)) : Except Fault Node := do
  let className := (Entries.get? fields "type").getD .null
  if let .string "Program" := className then
    let ⟨statements, _⟩ ← required "Program" fields "statements"
    return .program ⟨← readEach (statementSlot "statement") statements⟩
  let origin ← readOrigin fields
  match className with
  | .string "LetStatement" =>
    let ⟨name, _⟩ ← required "LetStatement" fields "name"
    let name ← (identifierSlot "let name").take (← read name)
    let ⟨value, _⟩ ← required "LetStatement" fields "value"
    let value ← (expressionSlot "let value").take (← read value)
    return .statement (.binding origin name value)
  | .string "ReturnStatement" =>
    let ⟨value, _⟩ ← required "ReturnStatement" fields "return_value"
    let value ← (expressionSlot "return value").take (← read value)
    return .statement (.returning origin value)
  | .string "ExpressionStatement" =>
    let ⟨value, _⟩ ← required "ExpressionStatement" fields "expression"
    let value ← (expressionSlot "expression").take (← read value)
    return .statement (.expression origin value)
  | .string "BlockStatement" =>
    let ⟨statements, _⟩ ← required "BlockStatement" fields "statements"
    return .statement (.block (.mk origin (← readEach (statementSlot "statement") statements)))
  | .string "Identifier" =>
    let ⟨value, _⟩ ← required "Identifier" fields "value"
    return .expression (.identifier ⟨origin, value.display⟩)
  | .string "IntegerLiteral" =>
    let ⟨value, _⟩ ← required "IntegerLiteral" fields "value"
    return .expression (.integer origin (← readInteger "IntegerLiteral" value))
  | .string "BooleanLiteral" =>
    let ⟨value, _⟩ ← required "BooleanLiteral" fields "value"
    return .expression (.boolean origin value.truthy)
  | .string "StringLiteral" =>
    let ⟨value, _⟩ ← required "StringLiteral" fields "value"
    return .expression (.string origin value.display)
  | .string "PrefixExpression" =>
    let ⟨operator, _⟩ ← required "PrefixExpression" fields "operator"
    let ⟨right, _⟩ ← required "PrefixExpression" fields "right"
    let right ← (expressionSlot "operand").take (← read right)
    return .expression (.unary origin operator.display right)
  | .string "InfixExpression" =>
    let ⟨left, _⟩ ← required "InfixExpression" fields "left"
    let left ← (expressionSlot "operand").take (← read left)
    let ⟨operator, _⟩ ← required "InfixExpression" fields "operator"
    let ⟨right, _⟩ ← required "InfixExpression" fields "right"
    let right ← (expressionSlot "operand").take (← read right)
    return .expression (.binary origin left operator.display right)
  | .string "IfExpression" =>
    let ⟨condition, _⟩ ← required "IfExpression" fields "condition"
    let condition ← (expressionSlot "condition").take (← read condition)
    let ⟨consequence, _⟩ ← required "IfExpression" fields "consequence"
    let consequence ← (blockSlot "consequence").take (← read consequence)
    match h : Entries.get? fields "alternative" with
    | none => return .expression (.conditional origin condition consequence none)
    | some .null => return .expression (.conditional origin condition consequence none)
    | some alternative =>
      have := Entries.sizeOf_get? h
      let alternative ← (blockSlot "alternative").take (← read alternative)
      return .expression (.conditional origin condition consequence (some alternative))
  | .string "FunctionLiteral" =>
    let ⟨parameters, _⟩ ← required "FunctionLiteral" fields "parameters"
    let parameters ← readEach (identifierSlot "parameter") parameters
    let ⟨body, _⟩ ← required "FunctionLiteral" fields "body"
    let body ← (blockSlot "function body").take (← read body)
    return .expression (.function origin parameters body)
  | .string "CallExpression" =>
    let ⟨callee, _⟩ ← required "CallExpression" fields "function"
    let callee ← (expressionSlot "callee").take (← read callee)
    let ⟨arguments, _⟩ ← required "CallExpression" fields "arguments"
    return .expression (.call origin callee (← readEach (expressionSlot "argument") arguments))
  | .string "ArrayLiteral" =>
    let ⟨elements, _⟩ ← required "ArrayLiteral" fields "elements"
    return .expression (.array origin (← readEach (expressionSlot "array element") elements))
  | .string "IndexExpression" =>
    let ⟨left, _⟩ ← required "IndexExpression" fields "left"
    let left ← (expressionSlot "indexed value").take (← read left)
    let ⟨place, _⟩ ← required "IndexExpression" fields "index"
    let place ← (expressionSlot "index").take (← read place)
    return .expression (.index origin left place)
  | .string "HashLiteral" =>
    let ⟨pairs, _⟩ ← required "HashLiteral" fields "pairs"
    return .expression (.hash origin (← readPairs pairs))
  | className => .error (.unknownClass className)
termination_by sizeOf fields

/-- The nodes of a list, each of which must fit the slot. -/
def readEach {α : Type} (slot : Slot α) (document : Json) : Except Fault (List α) :=
  match document with
  | .list items => items.attach.mapM fun ⟨item, _⟩ => do slot.take (← read item)
  | _ => .error (.notList slot.label)
termination_by sizeOf document

def readPairs (document : Json) : Except Fault (List (Expr × Expr)) :=
  match document with
  | .list items => items.attach.mapM fun ⟨item, _⟩ => readPair item
  | _ => .error (.notList "pairs")
termination_by sizeOf document

def readPair (document : Json) : Except Fault (Expr × Expr) :=
  match document with
  | .list [key, value] => do
    let key ← (expressionSlot "hash key").take (← read key)
    let value ← (expressionSlot "hash value").take (← read value)
    return (key, value)
  | document => .error (notPair "HashLiteral" document)
termination_by sizeOf document

end

/-- The program of a whole document. -/
def readProgram (document : Json) : Except Fault Program := do
  (programSlot "document").take (← read document)

end MonkeyLang.Document
