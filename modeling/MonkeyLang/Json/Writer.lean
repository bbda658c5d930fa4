import MonkeyLang.Json

/-!
Writing JSON text, on one line or with every item on a line of its own. The quote, the backslash
and the characters below the space are escaped; the text on one line is ASCII, so there all other
characters are too, those above U+FFFF as a surrogate pair.
-/

set_option autoImplicit false

namespace MonkeyLang.Json

namespace Writer

def codeUnit (n : Nat) : List Char :=
  '\\' :: 'u' :: Text.hexadecimal 4 n

def escape (c : Char) : List Char :=
  if c = '"' then ['\\', '"']
  else if c = '\\' then ['\\', '\\']
  else if c = '\n' then ['\\', 'n']
  else if c = '\r' then ['\\', 'r']
  else if c = '\t' then ['\\', 't']
  else if c = '\x08' then ['\\', 'b']
  else if c = '\x0c' then ['\\', 'f']
  else if c.toNat < 32 then codeUnit c.toNat
  else [c]

def escapeToAscii (c : Char) : List Char :=
  if c.toNat < 128 then escape c
  else if c.toNat ≤ 0xffff then codeUnit c.toNat
  else
    let above := c.toNat - 0x10000
    codeUnit (0xd800 + above / 0x400) ++ codeUnit (0xdc00 + above % 0x400)

def quotedWith (escape : Char → List Char) (s : String) : String :=
  "\"" ++ .ofList (s.toList.flatMap escape) ++ "\""

def stringText (s : String) : String :=
  quotedWith escape s

def asciiText (s : String) : String :=
  quotedWith escapeToAscii s

def realText (x : Binary64) : String :=
  x.textWith "Infinity" "NaN"

def newline (indent : Nat) : String :=
  .ofList ('\n' :: List.replicate indent ' ')

end Writer

open Writer

mutual

def compact : Json → String
  | null => "null"
  | boolean true => "true"
  | boolean false => "false"
  | integer n => toString n
  | real x => realText x
  | string s => asciiText s
  | list items => "[" ++ ", ".intercalate (compactItems items) ++ "]"
  | object fields => "\x7b" ++ ", ".intercalate (compactFields fields) ++ "\x7d"

def compactItems : List Json → List String
  | [] => []
  | item :: rest => item.compact :: compactItems rest

def compactFields : List (String × Json) → List String
  | [] => []
  | (name, value) :: rest => (asciiText name ++ ": " ++ value.compact) :: compactFields rest

end

mutual

/-- The text of a value whose enclosing line is indented by `indent` spaces; each level of nesting
adds two. -/
def indentedAt (indent : Nat) : Json → String
  | null => "null"
  | boolean true => "true"
  | boolean false => "false"
  | integer n => toString n
  | real x => realText x
  | string s => stringText s
  | list [] => "[]"
  | list (item :: rest) =>
    "[" ++ newline (indent + 2) ++
      ("," ++ newline (indent + 2)).intercalate
        (item.indentedAt (indent + 2) :: indentedItems (indent + 2) rest) ++
      newline indent ++ "]"
  | object [] => "\x7b\x7d"
  | object ((name, value) :: rest) =>
    "\x7b" ++ newline (indent + 2) ++
      ("," ++ newline (indent + 2)).intercalate
        ((stringText name ++ ": " ++ value.indentedAt (indent + 2)) ::
          indentedFields (indent + 2) rest) ++
      newline indent ++ "\x7d"

def indentedItems (indent : Nat) : List Json → List String
  | [] => []
  | item :: rest => item.indentedAt indent :: indentedItems indent rest

def indentedFields (indent : Nat) : List (String × Json) → List String
  | [] => []
  | (name, value) :: rest =>
    (stringText name ++ ": " ++ value.indentedAt indent) :: indentedFields indent rest

end

def indented (value : Json) : String :=
  value.indentedAt 0

end MonkeyLang.Json
