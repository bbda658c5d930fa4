import MonkeyLang.Text.Blank
import MonkeyLang.Text.Digit

/-!
Numerals: the integers that a text spells. Blanks may surround the numeral, one sign may stand
before the digits, single underscores may stand between digits, and the decimal digits of every
script count. A numeral of more than `maxDigits` digits is refused, leading zeros included.
-/

set_option autoImplicit false

namespace MonkeyLang.Text.Numeral

def maxDigits : Nat := 4300

inductive Refusal where
  | malformed
  | tooLong (digits : Nat)
  deriving DecidableEq, Repr

/-- Of the blank characters below U+0080, the four information separators do not count here. -/
def isPadding (c : Char) : Bool :=
  if c.toNat < 128 then (9 ≤ c.toNat && c.toNat ≤ 13) || c = ' ' else isBlank c

def inRun (c : Char) : Bool :=
  c = '_' || (decimalValue? c).isSome

/-- Underscores stand between digits only: none first, none last, no two together. -/
def grouped : List Char → Bool
  | [] => true
  | [c] => c ≠ '_'
  | '_' :: _ => false
  | _ :: '_' :: rest => grouped rest && !rest.isEmpty
  | _ :: rest => grouped rest

def digits (run : List Char) : List Nat :=
  run.filterMap decimalValue?

def value (digits : List Nat) : Nat :=
  digits.foldl (fun n d => 10 * n + d) 0

def splitSign : List Char → Bool × List Char
  | '-' :: rest => (true, rest)
  | '+' :: rest => (false, rest)
  | rest => (false, rest)

def ofChars (text : List Char) : Except Refusal Int :=
  let (negative, body) := splitSign (text.dropWhile isPadding)
  let run := body.takeWhile inRun
  let rest := body.dropWhile inRun
  let ds := digits run
  if !grouped run then .error .malformed
  else if maxDigits < ds.length then .error (.tooLong ds.length)
  else if ds.isEmpty || !rest.all isPadding then .error .malformed
  else .ok (if negative then -(value ds : Int) else value ds)

/-- The integer that the text spells. -/
def read (text : String) : Except Refusal Int :=
  ofChars text.toList

end MonkeyLang.Text.Numeral
