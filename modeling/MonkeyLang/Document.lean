import MonkeyLang.Program

/-!
Trees as JSON documents. A node is an object that gives its class under `type`, its token, and its
parts by name; a missing alternative is `null`, and the pairs of a hash are lists of two.
-/

set_option autoImplicit false

namespace MonkeyLang

def Origin.document (origin : Origin) : Json :=
  .object [("kind", .string origin.kind.name), ("literal", origin.literal)]

/-- The document of a node: its class, its token, then its parts. -/
def nodeDocument (className : String) (origin : Origin) (parts : List (String × Json)) : Json :=
  .object (("type", .string className) :: ("token", origin.document) :: parts)

def Identifier.document (name : Identifier) : Json :=
  nodeDocument "Identifier" name.origin [("value", .string name.value)]

mutual

def Expr.document : Expr → Json
  | .identifier name => name.document
  | .integer origin value => nodeDocument "IntegerLiteral" origin [("value", .integer value)]
  | .boolean origin value => nodeDocument "BooleanLiteral" origin [("value", .boolean value)]
  | .string origin value => nodeDocument "StringLiteral" origin [("value", .string value)]
  | .unary origin operator right =>
    nodeDocument "PrefixExpression" origin
      [("operator", .string operator), ("right", right.document)]
  | .binary origin left operator right =>
    nodeDocument "InfixExpression" origin
      [("left", left.document), ("operator", .string operator), ("right", right.document)]
  | .conditional origin condition consequence none =>
    nodeDocument "IfExpression" origin
      [("condition", condition.document), ("consequence", consequence.document),
       ("alternative", .null)]
  | .conditional origin condition consequence (some alternative) =>
    nodeDocument "IfExpression" origin
      [("condition", condition.document), ("consequence", consequence.document),
       ("alternative", alternative.document)]
  | .function origin parameters body =>
    nodeDocument "FunctionLiteral" origin
      [("parameters", .list (parameters.map Identifier.document)), ("body", body.document)]
  | .call origin callee arguments =>
    nodeDocument "CallExpression" origin
      [("function", callee.document), ("arguments", .list (Expr.documents arguments))]
  | .array origin elements =>
    nodeDocument "ArrayLiteral" origin [("elements", .list (Expr.documents elements))]
  | .index origin left place =>
    nodeDocument "IndexExpression" origin [("left", left.document), ("index", place.document)]
  | .hash origin pairs =>
    nodeDocument "HashLiteral" origin [("pairs", .list (Expr.pairDocuments pairs))]

def Expr.documents : List Expr → List Json
  | [] => []
  | expression :: rest => expression.document :: Expr.documents rest

def Expr.pairDocuments : List (Expr × Expr) → List Json
  | [] => []
  | (key, value) :: rest => .list [key.document, value.document] :: Expr.pairDocuments rest

def Stmt.document : Stmt → Json
  | .binding origin name value =>
    nodeDocument "LetStatement" origin [("name", name.document), ("value", value.document)]
  | .returning origin value =>
    nodeDocument "ReturnStatement" origin [("return_value", value.document)]
  | .expression origin tree =>
    nodeDocument "ExpressionStatement" origin [("expression", tree.document)]
  | .block body => body.document

def Stmt.documents : List Stmt → List Json
  | [] => []
  | statement :: rest => statement.document :: Stmt.documents rest

def Block.document : Block → Json
  | .mk origin statements =>
    nodeDocument "BlockStatement" origin [("statements", .list (Stmt.documents statements))]

end

def Program.document (program : Program) : Json :=
  .object [("type", .string "Program"), ("statements", .list (Stmt.documents program.statements))]

def Node.document : Node → Json
  | .program tree => tree.document
  | .statement tree => tree.document
  | .expression tree => tree.document

end MonkeyLang
