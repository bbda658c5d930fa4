import MonkeyLang.Text.Quoted

/-!
Tokens: a kind and the text it was read from. The text of a string token is what stands between
the quotes. The seven keywords are told from other words by a look-up of the whole word.
-/

set_option autoImplicit false

namespace MonkeyLang

inductive Kind where
  | illegal
  | endOfInput
  | identifier
  | integer
  | string
  | assign
  | plus
  | minus
  | bang
  | asterisk
  | slash
  | lt
  | gt
  | eq
  | notEq
  | comma
  | colon
  | semicolon
  | lparen
  | rparen
  | lbrace
  | rbrace
  | lbracket
  | rbracket
  | functionWord
  | letWord
  | trueWord
  | falseWord
  | ifWord
  | elseWord
  | returnWord
  deriving DecidableEq, Repr, Inhabited

namespace Kind

def name : Kind → String
  | illegal => "ILLEGAL"
  | endOfInput => "EOF"
  | identifier => "IDENT"
  | integer => "INT"
  | string => "STRING"
  | assign => "ASSIGN"
  | plus => "PLUS"
  | minus => "MINUS"
  | bang => "BANG"
  | asterisk => "ASTERISK"
  | slash => "SLASH"
  | lt => "LT"
  | gt => "GT"
  | eq => "EQ"
  | notEq => "NOT_EQ"
  | comma => "COMMA"
  | colon => "COLON"
  | semicolon => "SEMICOLON"
  | lparen => "LPAREN"
  | rparen => "RPAREN"
  | lbrace => "LBRACE"
  | rbrace => "RBRACE"
  | lbracket => "LBRACKET"
  | rbracket => "RBRACKET"
  | functionWord => "FUNCTION"
  | letWord => "LET"
  | trueWord => "TRUE"
  | falseWord => "FALSE"
  | ifWord => "IF"
  | elseWord => "ELSE"
  | returnWord => "RETURN"

def all : List Kind :=
  [illegal, endOfInput, identifier, integer, string, assign, plus, minus, bang, asterisk, slash,
   lt, gt, eq, notEq, comma, colon, semicolon, lparen, rparen, lbrace, rbrace, lbracket, rbracket,
   functionWord, letWord, trueWord, falseWord, ifWord, elseWord, returnWord]

def ofName? (name : String) : Option Kind :=
  all.find? (·.name = name)

theorem ofName?_name (kind : Kind) : ofName? kind.name = some kind := by
  cases kind <;> rfl

/-- The kind of a character that is a token by itself. `=` and `!` are not among them, because
they may start a longer operator. -/
def ofSymbol? : Char → Option Kind
  | '+' => some plus
  | '-' => some minus
  | '*' => some asterisk
  | '/' => some slash
  | '<' => some lt
  | '>' => some gt
  | ',' => some comma
  | ':' => some colon
  | ';' => some semicolon
  | '(' => some lparen
  | ')' => some rparen
  | '\x7b' => some lbrace
  | '\x7d' => some rbrace
  | '[' => some lbracket
  | ']' => some rbracket
  | _ => none

def ofKeyword? : String → Option Kind
  | "fn" => some functionWord
  | "let" => some letWord
  | "true" => some trueWord
  | "false" => some falseWord
  | "if" => some ifWord
  | "else" => some elseWord
  | "return" => some returnWord
  | _ => none

end Kind

structure Token where
  kind : Kind
  literal : String
  deriving DecidableEq, Repr, Inhabited

namespace Token

def endOfInput : Token :=
  ⟨.endOfInput, ""⟩

/-- The token of a word: its keyword, or an identifier. -/
def ofWord (word : String) : Token :=
  ⟨(Kind.ofKeyword? word).getD .identifier, word⟩

end Token

end MonkeyLang
