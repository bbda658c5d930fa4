import MonkeyLang.Halt
import MonkeyLang.Program

/-!
Rendering. Every operator and index expression is put in parentheses, so that a rendered tree reads
back as the same tree. An expression statement has no terminator of its own and gets a semicolon
when another statement follows.

Integer and boolean literals are rendered by the text of their token. In a tree from a document
that token may hold something else than a text, and such a tree has no rendering. Rendering also
takes nested steps, as many more as the tree is deep, and there may be a bound to them. What stops
a rendering first is its obstacle; where there is none, the text is that of `render`.
-/

set_option autoImplicit false

namespace MonkeyLang

def Identifier.render (name : Identifier) : String :=
  name.value

def Identifier.renderList (names : List Identifier) : String :=
  ", ".intercalate (names.map Identifier.render)

mutual

def Expr.render : Expr → String
  | .identifier name => name.render
  | .integer origin _ => origin.literal.display
  | .boolean origin _ => origin.literal.display
  | .string _ value => "\"" ++ value ++ "\""
  | .unary _ operator right => "(" ++ operator ++ right.render ++ ")"
  | .binary _ left operator right =>
    "(" ++ left.render ++ " " ++ operator ++ " " ++ right.render ++ ")"
  | .conditional _ condition consequence none =>
    "if (" ++ condition.render ++ ") " ++ consequence.render
  | .conditional _ condition consequence (some alternative) =>
    "if (" ++ condition.render ++ ") " ++ consequence.render ++ " else " ++ alternative.render
  | .function origin parameters body =>
    origin.literal.display ++ "(" ++ Identifier.renderList parameters ++ ") " ++ body.render
  | .call _ callee arguments =>
    callee.render ++ "(" ++ ", ".intercalate (Expr.renderEach arguments) ++ ")"
  | .array _ elements => "[" ++ ", ".intercalate (Expr.renderEach elements) ++ "]"
  | .index _ left place => "(" ++ left.render ++ "[" ++ place.render ++ "])"
  | .hash _ pairs => "\x7b" ++ ", ".intercalate (Expr.renderPairs pairs) ++ "\x7d"

def Expr.renderEach : List Expr → List String
  | [] => []
  | expression :: rest => expression.render :: Expr.renderEach rest

def Expr.renderPairs : List (Expr × Expr) → List String
  | [] => []
  | (key, value) :: rest => (key.render ++ ": " ++ value.render) :: Expr.renderPairs rest

def Stmt.render : Stmt → String
  | .binding origin name value =>
    origin.literal.display ++ " " ++ name.render ++ " = " ++ value.render ++ ";"
  | .returning origin value => origin.literal.display ++ " " ++ value.render ++ ";"
  | .expression _ tree => tree.render
  | .block body => body.render

def Stmt.renderEach : List Stmt → List String
  | [] => []
  | [last] => [last.render]
  | .expression _ tree :: rest => (tree.render ++ ";") :: Stmt.renderEach rest
  | statement :: rest => statement.render :: Stmt.renderEach rest

def Block.render : Block → String
  | .mk _ [] => "\x7b \x7d"
  | .mk _ (first :: rest) => "\x7b " ++ " ".intercalate (Stmt.renderEach (first :: rest)) ++ " \x7d"

end

def Program.render (program : Program) : String :=
  " ".intercalate (Stmt.renderEach program.statements)

def Node.render : Node → String
  | .program tree => tree.render
  | .statement tree => tree.render
  | .expression tree => tree.render

/-- A literal in the place of a text. -/
def Json.obstacle? : Json → Option Halt
  | .string _ => none
  | literal => some (.nonText literal)

open Halt (within)

mutual

/-- What stops the rendering of a tree first, with this room for nested steps. The arguments of a
call come before the function that is called. -/
def Expr.obstacle? : Expr → Room → Option Halt
  | .identifier _, _ => none
  | .integer origin _, _ => origin.literal.obstacle?
  | .boolean origin _, _ => origin.literal.obstacle?
  | .string _ _, _ => none
  | .unary _ _ right, room => within Steps.inserted right.obstacle? room
  | .binary _ left _ right, room =>
    within Steps.inserted left.obstacle? room <|> within Steps.inserted right.obstacle? room
  | .conditional _ condition consequence none, room =>
    within Steps.inserted condition.obstacle? room <|>
      within Steps.inserted consequence.obstacle? room
  | .conditional _ condition consequence (some alternative), room =>
    within Steps.inserted condition.obstacle? room <|>
      within Steps.inserted consequence.obstacle? room <|>
        within Steps.inserted alternative.obstacle? room
  | .function _ _ body, room => within Steps.inserted body.obstacle? room
  | .call _ callee arguments, room =>
    Expr.obstacleIn? arguments room <|> within Steps.inserted callee.obstacle? room
  | .array _ elements, room => Expr.obstacleIn? elements room
  | .index _ left place, room =>
    within Steps.inserted left.obstacle? room <|> within Steps.inserted place.obstacle? room
  | .hash _ pairs, room => Expr.obstacleInPairs? pairs room

def Expr.obstacleIn? : List Expr → Room → Option Halt
  | [], _ => none
  | expression :: rest, room =>
    within (Steps.joined + Steps.alone) expression.obstacle? room <|> Expr.obstacleIn? rest room

def Expr.obstacleInPairs? : List (Expr × Expr) → Room → Option Halt
  | [], _ => none
  | (key, value) :: rest, room =>
    within (Steps.joined + Steps.inserted) key.obstacle? room <|>
      within (Steps.joined + Steps.inserted) value.obstacle? room <|>
        Expr.obstacleInPairs? rest room

def Stmt.obstacle? : Stmt → Room → Option Halt
  | .binding _ _ value, room => within Steps.inserted value.obstacle? room
  | .returning _ value, room => within Steps.inserted value.obstacle? room
  | .expression _ tree, room => within Steps.alone tree.obstacle? room
  | .block body, room => body.obstacle? room

def Stmt.obstacleIn? : List Stmt → Room → Option Halt
  | [], _ => none
  | statement :: rest, room =>
    within Steps.statement statement.obstacle? room <|> Stmt.obstacleIn? rest room

def Block.obstacle? : Block → Room → Option Halt
  | .mk _ statements, room => Stmt.obstacleIn? statements room

end

def Program.obstacle? (program : Program) : Room → Option Halt :=
  Stmt.obstacleIn? program.statements

def Node.obstacle? : Node → Room → Option Halt
  | .program tree => tree.obstacle?
  | .statement tree => tree.obstacle?
  | .expression tree => tree.obstacle?

end MonkeyLang
