import MonkeyLang.Text.Printable

/-!
Quoted text. A text is written between single quotes, or between double quotes when it holds a
single quote and no double one. The backslash and the enclosing quote are escaped, line feed,
carriage return and tabulator have short escapes, and any other character that cannot be printed
is written by its code point in two, four or eight hexadecimal digits.
-/

set_option autoImplicit false

namespace MonkeyLang.Text

/-- The digits of `n` in base sixteen, padded on the left to at least `width` places. -/
def hexadecimal (width n : Nat) : List Char :=
  let digits := Nat.toDigits 16 n
  List.replicate (width - digits.length) '0' ++ digits

def escapeCodePoint (n : Nat) : List Char :=
  if n ≤ 0xff then '\\' :: 'x' :: hexadecimal 2 n
  else if n ≤ 0xffff then '\\' :: 'u' :: hexadecimal 4 n
  else '\\' :: 'U' :: hexadecimal 8 n

def escapeQuoted (quote c : Char) : List Char :=
  if c = quote ∨ c = '\\' then ['\\', c]
  else if c = '\n' then ['\\', 'n']
  else if c = '\r' then ['\\', 'r']
  else if c = '\t' then ['\\', 't']
  else if isPrintable c then [c]
  else escapeCodePoint c.toNat

def chooseQuote (text : List Char) : Char :=
  if '\'' ∈ text ∧ '"' ∉ text then '"' else '\''

def quotedChars (text : List Char) : List Char :=
  let quote := chooseQuote text
  quote :: (text.flatMap (escapeQuoted quote) ++ [quote])

def quoted (text : String) : String :=
  .ofList (quotedChars text.toList)

end MonkeyLang.Text
