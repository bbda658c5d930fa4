import MonkeyLang.Halt
import MonkeyLang.Program

/-!
The inspected form of a tree: every node with its class and all its fields, the token first.
Sequences are written in parentheses, and a sequence of one item ends with a comma. Like rendering,
inspecting takes nested steps; `inspectDepth` is their number.
-/

set_option autoImplicit false

namespace MonkeyLang

def Token.inspect (token : Token) : String :=
  "Token(" ++ token.kind.name ++ ", " ++ Text.quoted token.literal ++ ")"

def Origin.inspect (origin : Origin) : String :=
  "Token(" ++ origin.kind.name ++ ", " ++ origin.literal.inspect ++ ")"

/-- The text of a sequence of items that are written already. -/
def inspectSequence : List String → String
  | [] => "()"
  | [item] => "(" ++ item ++ ",)"
  | items => "(" ++ ", ".intercalate items ++ ")"

/-- The text of a record, its fields given by name. -/
def inspectRecord (name : String) (fields : List (String × String)) : String :=
  name ++ "(" ++ ", ".intercalate (fields.map fun field => field.1 ++ "=" ++ field.2) ++ ")"

def inspectBool (b : Bool) : String :=
  if b then "True" else "False"

def Identifier.inspect (name : Identifier) : String :=
  inspectRecord "Identifier" [("token", name.origin.inspect), ("value", Text.quoted name.value)]

mutual

def Expr.inspect : Expr → String
  | .identifier name => name.inspect
  | .integer origin value =>
    inspectRecord "IntegerLiteral" [("token", origin.inspect), ("value", toString value)]
  | .boolean origin value =>
    inspectRecord "BooleanLiteral" [("token", origin.inspect), ("value", inspectBool value)]
  | .string origin value =>
    inspectRecord "StringLiteral" [("token", origin.inspect), ("value", Text.quoted value)]
  | .unary origin operator right =>
    inspectRecord "PrefixExpression"
      [("token", origin.inspect), ("operator", Text.quoted operator), ("right", right.inspect)]
  | .binary origin left operator right =>
    inspectRecord "InfixExpression"
      [("token", origin.inspect), ("left", left.inspect), ("operator", Text.quoted operator),
       ("right", right.inspect)]
  | .conditional origin condition consequence none =>
    inspectRecord "IfExpression"
      [("token", origin.inspect), ("condition", condition.inspect),
       ("consequence", consequence.inspect), ("alternative", "None")]
  | .conditional origin condition consequence (some alternative) =>
    inspectRecord "IfExpression"
      [("token", origin.inspect), ("condition", condition.inspect),
       ("consequence", consequence.inspect), ("alternative", alternative.inspect)]
  | .function origin parameters body =>
    inspectRecord "FunctionLiteral"
      [("token", origin.inspect),
       ("parameters", inspectSequence (parameters.map Identifier.inspect)), ("body", body.inspect)]
  | .call origin callee arguments =>
    inspectRecord "CallExpression"
      [("token", origin.inspect), ("function", callee.inspect),
       ("arguments", inspectSequence (Expr.inspectEach arguments))]
  | .array origin elements =>
    inspectRecord "ArrayLiteral"
      [("token", origin.inspect), ("elements", inspectSequence (Expr.inspectEach elements))]
  | .index origin left place =>
    inspectRecord "IndexExpression"
      [("token", origin.inspect), ("left", left.inspect), ("index", place.inspect)]
  | .hash origin pairs =>
    inspectRecord "HashLiteral"
      [("token", origin.inspect), ("pairs", inspectSequence (Expr.inspectPairs pairs))]

def Expr.inspectEach : List Expr → List String
  | [] => []
  | expression :: rest => expression.inspect :: Expr.inspectEach rest

def Expr.inspectPairs : List (Expr × Expr) → List String
  | [] => []
  | (key, value) :: rest => inspectSequence [key.inspect, value.inspect] :: Expr.inspectPairs rest

def Stmt.inspect : Stmt → String
  | .binding origin name value =>
    inspectRecord "LetStatement"
      [("token", origin.inspect), ("name", name.inspect), ("value", value.inspect)]
  | .returning origin value =>
    inspectRecord "ReturnStatement" [("token", origin.inspect), ("return_value", value.inspect)]
  | .expression origin tree =>
    inspectRecord "ExpressionStatement"
      [("token", origin.inspect), ("expression", tree.inspect)]
  | .block body => body.inspect

def Stmt.inspectEach : List Stmt → List String
  | [] => []
  | statement :: rest => statement.inspect :: Stmt.inspectEach rest

def Block.inspect : Block → String
  | .mk origin statements =>
    inspectRecord "BlockStatement"
      [("token", origin.inspect), ("statements", inspectSequence (Stmt.inspectEach statements))]

end

mutual

def Expr.inspectDepth : Expr → Nat
  | .identifier _ | .integer _ _ | .boolean _ _ | .string _ _ => Steps.record
  | .unary _ _ right => Steps.record + right.inspectDepth
  | .binary _ left _ right => Steps.record + max left.inspectDepth right.inspectDepth
  | .conditional _ condition consequence none =>
    Steps.record + max condition.inspectDepth consequence.inspectDepth
  | .conditional _ condition consequence (some alternative) =>
    Steps.record +
      max condition.inspectDepth (max consequence.inspectDepth alternative.inspectDepth)
  | .function _ _ body => Steps.record + body.inspectDepth
  | .call _ callee arguments =>
    Steps.record + max callee.inspectDepth (Steps.sequence + Expr.inspectDepthIn arguments)
  | .array _ elements => Steps.record + (Steps.sequence + Expr.inspectDepthIn elements)
  | .index _ left place => Steps.record + max left.inspectDepth place.inspectDepth
  | .hash _ pairs =>
    Steps.record + (Steps.sequence + Steps.sequence + Expr.inspectDepthInPairs pairs)

def Expr.inspectDepthIn : List Expr → Nat
  | [] => 0
  | expression :: rest => max expression.inspectDepth (Expr.inspectDepthIn rest)

def Expr.inspectDepthInPairs : List (Expr × Expr) → Nat
  | [] => 0
  | (key, value) :: rest =>
    max (max key.inspectDepth value.inspectDepth) (Expr.inspectDepthInPairs rest)

def Stmt.inspectDepth : Stmt → Nat
  | .binding _ _ value => Steps.record + value.inspectDepth
  | .returning _ value => Steps.record + value.inspectDepth
  | .expression _ tree => Steps.record + tree.inspectDepth
  | .block body => body.inspectDepth

def Stmt.inspectDepthIn : List Stmt → Nat
  | [] => 0
  | statement :: rest => max statement.inspectDepth (Stmt.inspectDepthIn rest)

def Block.inspectDepth : Block → Nat
  | .mk _ statements => Steps.record + (Steps.sequence + Stmt.inspectDepthIn statements)

end

end MonkeyLang
