import MonkeyLang.Json
import MonkeyLang.Token

/-!
Programs as trees. Every node keeps the token it was made from. A tree that was read from a
document may have any value in the place of that token's text, any operator, and blocks among the
statements of a block; a tree that was parsed has none of these.
-/

set_option autoImplicit false

namespace MonkeyLang

/-- The token that a node was made from. -/
structure Origin where
  kind : Kind
  literal : Json
  deriving Inhabited

def Token.origin (token : Token) : Origin :=
  ⟨token.kind, .string token.literal⟩

structure Identifier where
  origin : Origin
  value : String
  deriving Inhabited

mutual

inductive Expr where
  | identifier (name : Identifier)
  | integer (origin : Origin) (value : Int)
  | boolean (origin : Origin) (value : Bool)
  | string (origin : Origin) (value : String)
  | unary (origin : Origin) (operator : String) (right : Expr)
  | binary (origin : Origin) (left : Expr) (operator : String) (right : Expr)
  | conditional (origin : Origin) (condition : Expr) (consequence : Block)
      (alternative : Option Block)
  | function (origin : Origin) (parameters : List Identifier) (body : Block)
  | call (origin : Origin) (callee : Expr) (arguments : List Expr)
  | array (origin : Origin) (elements : List Expr)
  | index (origin : Origin) (left : Expr) (index : Expr)
  | hash (origin : Origin) (pairs : List (Expr × Expr))

inductive Stmt where
  | binding (origin : Origin) (name : Identifier) (value : Expr)
  | returning (origin : Origin) (value : Expr)
  | expression (origin : Origin) (expression : Expr)
  | block (block : Block)

inductive Block where
  | mk (origin : Origin) (statements : List Stmt)

end

structure Program where
  statements : List Stmt

/-- A tree of any kind. -/
inductive Node where
  | program (program : Program)
  | statement (statement : Stmt)
  | expression (expression : Expr)

def Block.origin : Block → Origin
  | .mk origin _ => origin

def Block.statements : Block → List Stmt
  | .mk _ statements => statements

def Expr.origin : Expr → Origin
  | .identifier name => name.origin
  | .integer origin _ | .boolean origin _ | .string origin _ | .unary origin _ _
  | .binary origin _ _ _ | .conditional origin _ _ _ | .function origin _ _ | .call origin _ _
  | .array origin _ | .index origin _ _ | .hash origin _ => origin

def Stmt.origin : Stmt → Origin
  | .binding origin _ _ | .returning origin _ | .expression origin _ => origin
  | .block body => body.origin

/-- The name of the kind of node, as documents and messages give it. -/
def Expr.className : Expr → String
  | .identifier _ => "Identifier"
  | .integer _ _ => "IntegerLiteral"
  | .boolean _ _ => "BooleanLiteral"
  | .string _ _ => "StringLiteral"
  | .unary _ _ _ => "PrefixExpression"
  | .binary _ _ _ _ => "InfixExpression"
  | .conditional _ _ _ _ => "IfExpression"
  | .function _ _ _ => "FunctionLiteral"
  | .call _ _ _ => "CallExpression"
  | .array _ _ => "ArrayLiteral"
  | .index _ _ _ => "IndexExpression"
  | .hash _ _ => "HashLiteral"

def Stmt.className : Stmt → String
  | .binding _ _ _ => "LetStatement"
  | .returning _ _ => "ReturnStatement"
  | .expression _ _ => "ExpressionStatement"
  | .block _ => "BlockStatement"

def Node.className : Node → String
  | .program _ => "Program"
  | .statement tree => tree.className
  | .expression tree => tree.className

/-- The text of the first token; the empty program has an empty one. -/
def Program.literal (program : Program) : Json :=
  (program.statements.head?.map (·.origin.literal)).getD (.string "")

def Node.literal : Node → Json
  | .program tree => tree.literal
  | .statement tree => tree.origin.literal
  | .expression tree => tree.origin.literal

end MonkeyLang
