import MonkeyLang.Json
import MonkeyLang.Text.Numeral

/-!
Reading JSON text. A refused text is described by what was expected and by the place, counted in
characters, at which reading stopped. Of two fields with one name the later value counts, in the
earlier place. `NaN`, `Infinity` and `-Infinity` are read as numbers.
-/

set_option autoImplicit false

namespace MonkeyLang.Json

namespace Reader

inductive Cause where
  | byteOrderMark
  | value
  | name
  | colon
  | comma
  | unterminated
  | controlCharacter
  | escape
  | unicodeEscape
  | extraData
  | tooManyDigits (count : Nat)
  deriving DecidableEq, Repr

structure Refusal where
  cause : Cause
  offset : Nat
  deriving DecidableEq, Repr

structure Cursor where
  offset : Nat
  rest : List Char

namespace Cursor

def advance (cursor : Cursor) (count : Nat) : Cursor :=
  ⟨cursor.offset + count, cursor.rest.drop count⟩

def isSpace (c : Char) : Bool :=
  c = ' ' || c = '\t' || c = '\n' || c = '\r'

def skipSpace (cursor : Cursor) : Cursor :=
  cursor.advance (cursor.rest.takeWhile isSpace).length

def refuse {α : Type} (cursor : Cursor) (cause : Cause) : Except Refusal α :=
  .error ⟨cause, cursor.offset⟩

end Cursor

def hexDigit? (c : Char) : Option Nat :=
  if '0' ≤ c && c ≤ '9' then some (c.toNat - 48)
  else if 'a' ≤ c && c ≤ 'f' then some (c.toNat - 87)
  else if 'A' ≤ c && c ≤ 'F' then some (c.toNat - 55)
  else none

/-- Four hexadecimal digits that something follows: at least a closing quote must come after. -/
def codeUnit? : List Char → Option Nat
  | a :: b :: c :: d :: _ :: _ => do
    let a ← hexDigit? a
    let b ← hexDigit? b
    let c ← hexDigit? c
    let d ← hexDigit? d
    return ((a * 16 + b) * 16 + c) * 16 + d
  | _ => none

def isHighSurrogate (n : Nat) : Bool :=
  0xd800 ≤ n && n ≤ 0xdbff

def isLowSurrogate (n : Nat) : Bool :=
  0xdc00 ≤ n && n ≤ 0xdfff

def joinSurrogates (high low : Nat) : Nat :=
  0x10000 + (high - 0xd800) * 0x400 + (low - 0xdc00)

def shortEscape? : Char → Option Char
  | '"' => some '"'
  | '\\' => some '\\'
  | '/' => some '/'
  | 'b' => some '\x08'
  | 'f' => some '\x0c'
  | 'n' => some '\n'
  | 'r' => some '\r'
  | 't' => some '\t'
  | _ => none

/-- The character of a `\u` escape whose digits start at `digits`, and the characters that it
takes from there on. The two halves of a surrogate pair make one character. Half a pair on its own
is no character: it becomes U+0000 (`Char.ofNat`). -/
def escapedUnit (digits : Cursor) : Except Refusal (Char × Nat) :=
  match codeUnit? digits.rest with
  | none => .error ⟨.unicodeEscape, digits.offset - 1⟩
  | some high =>
    match isHighSurrogate high, digits.rest.drop 4 with
    | true, '\\' :: 'u' :: more =>
      if (more.drop 4).isEmpty then .ok (Char.ofNat high, 4)
      else
        match codeUnit? more with
        | none => .error ⟨.unicodeEscape, digits.offset + 5⟩
        | some low =>
          if isLowSurrogate low then .ok (Char.ofNat (joinSurrogates high low), 10)
          else .ok (Char.ofNat high, 4)
    | _, _ => .ok (Char.ofNat high, 4)

/-- The rest of a string that was opened at `opened`; `done` holds its characters in reverse.
Every round takes a character, so the text left bounds the rounds. -/
def readString (opened : Nat) : List Char → Cursor → List Char → Except Refusal (String × Cursor)
  | [], _, _ => .error ⟨.unterminated, opened⟩
  | _ :: bound, cursor, done =>
    match cursor.rest with
    | [] => .error ⟨.unterminated, opened⟩
    | '"' :: _ => .ok (.ofList done.reverse, cursor.advance 1)
    | '\\' :: [] => .error ⟨.unterminated, opened⟩
    | '\\' :: 'u' :: _ => do
      let (c, taken) ← escapedUnit (cursor.advance 2)
      readString opened bound (cursor.advance (2 + taken)) (c :: done)
    | '\\' :: e :: _ =>
      match shortEscape? e with
      | some c => readString opened bound (cursor.advance 2) (c :: done)
      | none => cursor.refuse .escape
    | c :: _ =>
      if c.toNat < 32 then cursor.refuse .controlCharacter
      else readString opened bound (cursor.advance 1) (c :: done)

def isAsciiDigit (c : Char) : Bool :=
  '0' ≤ c && c ≤ '9'

def digitRun (text : List Char) : List Char :=
  text.takeWhile isAsciiDigit

def natOfDigits (digits : List Char) : Nat :=
  digits.foldl (fun n c => 10 * n + (c.toNat - 48)) 0

/-- The digits after a decimal point, where at least one stands. -/
def fractionDigits : List Char → List Char
  | '.' :: rest => digitRun rest
  | _ => []

def signedDigits : List Char → Nat × Bool × List Char
  | '-' :: rest => (1, true, digitRun rest)
  | '+' :: rest => (1, false, digitRun rest)
  | rest => (0, false, digitRun rest)

/-- The power of ten written after the mark of an exponent, and the characters it takes. -/
def exponentPart : List Char → Option (Int × Nat)
  | mark :: rest =>
    if mark = 'e' ∨ mark = 'E' then
      let (signs, negative, digits) := signedDigits rest
      if digits.isEmpty then none
      else
        let n : Int := natOfDigits digits
        some (if negative then -n else n, 1 + signs + digits.length)
    else none
  | [] => none

/-- The digits before the point: a zero alone, or a run that does not start with one. -/
def wholeDigits : List Char → List Char
  | '0' :: _ => ['0']
  | text => digitRun text

def readNumber (cursor : Cursor) : Except Refusal (Json × Cursor) :=
  let negative := cursor.rest.head? = some '-'
  let start := if negative then cursor.advance 1 else cursor
  let whole := wholeDigits start.rest
  if whole.isEmpty then cursor.refuse .value
  else
    let afterWhole := start.advance whole.length
    let fraction := fractionDigits afterWhole.rest
    let afterFraction :=
      if fraction.isEmpty then afterWhole else afterWhole.advance (fraction.length + 1)
    match exponentPart afterFraction.rest, fraction.isEmpty with
    | none, true =>
      if Text.Numeral.maxDigits < whole.length then cursor.refuse (.tooManyDigits whole.length)
      else
        let n : Int := natOfDigits whole
        .ok (.integer (if negative then -n else n), afterWhole)
    | power, _ =>
      let (power, taken) := power.getD (0, 0)
      let digits := natOfDigits (whole ++ fraction)
      .ok (.real (.ofDecimal negative digits (power - fraction.length)), afterFraction.advance taken)

/-- The words that stand for values. -/
def words : List (String × Json) :=
  [("null", .null), ("true", .boolean true), ("false", .boolean false), ("NaN", .real .nan),
   ("Infinity", .real (.infinity false)), ("-Infinity", .real (.infinity true))]

def readWord? (cursor : Cursor) : Option (Json × Cursor) :=
  (words.find? fun word => word.1.toList.isPrefixOf cursor.rest).map fun word =>
    (word.2, cursor.advance word.1.length)

mutual

/-- Every nested value and every further item takes a character, so the length of the text bounds
the recursion. -/
def readValue : Nat → Cursor → Except Refusal (Json × Cursor)
  | 0, cursor => cursor.refuse .value
  | bound + 1, cursor =>
    match cursor.rest with
    | '"' :: _ => do
      let (text, next) ← readString cursor.offset cursor.rest (cursor.advance 1) []
      return (.string text, next)
    | '\x7b' :: _ =>
      let next := (cursor.advance 1).skipSpace
      match next.rest with
      | '\x7d' :: _ => .ok (.object [], next.advance 1)
      | _ => readFields bound next []
    | '[' :: _ =>
      let next := (cursor.advance 1).skipSpace
      match next.rest with
      | ']' :: _ => .ok (.list [], next.advance 1)
      | _ => readItems bound next []
    | _ => (readWord? cursor).elim (readNumber cursor) .ok

def readItems : Nat → Cursor → List Json → Except Refusal (Json × Cursor)
  | 0, cursor, _ => cursor.refuse .value
  | bound + 1, cursor, done => do
    let (item, next) ← readValue bound cursor
    let next := next.skipSpace
    match next.rest with
    | ']' :: _ => return (.list (item :: done).reverse, next.advance 1)
    | ',' :: _ => readItems bound (next.advance 1).skipSpace (item :: done)
    | _ => next.refuse .comma

def readFields : Nat → Cursor → List (String × Json) → Except Refusal (Json × Cursor)
  | 0, cursor, _ => cursor.refuse .value
  | bound + 1, cursor, done =>
    match cursor.rest with
    | '"' :: _ => do
      let (name, afterName) ← readString cursor.offset cursor.rest (cursor.advance 1) []
      let colon := afterName.skipSpace
      match colon.rest with
      | ':' :: _ =>
        let (value, next) ← readValue bound (colon.advance 1).skipSpace
        let next := next.skipSpace
        let done := Entries.put name value done
        match next.rest with
        | '\x7d' :: _ => return (.object done, next.advance 1)
        | ',' :: _ => readFields bound (next.advance 1).skipSpace done
        | _ => next.refuse .comma
      | _ => colon.refuse .colon
    | _ => cursor.refuse .name

end

def Cause.text : Cause → String
  | .byteOrderMark => "Unexpected UTF-8 BOM (decode using utf-8-sig)"
  | .value => "Expecting value"
  | .name => "Expecting property name enclosed in double quotes"
  | .colon => "Expecting ':' delimiter"
  | .comma => "Expecting ',' delimiter"
  | .unterminated => "Unterminated string starting at"
  | .controlCharacter => "Invalid control character at"
  | .escape => "Invalid \\escape"
  | .unicodeEscape => "Invalid \\uXXXX escape"
  | .extraData => "Extra data"
  | .tooManyDigits count =>
    "Exceeds the limit (" ++ toString Text.Numeral.maxDigits ++
      " digits) for integer string conversion: value has " ++ toString count ++
      " digits; use sys.set_int_max_str_digits() to increase the limit"

/-- The refusal in words. Lines and columns count from one, characters from zero. -/
def Refusal.message (refusal : Refusal) (text : List Char) : String :=
  let before := text.take refusal.offset
  let line := before.count '\n' + 1
  let column := (before.reverse.takeWhile (· ≠ '\n')).length + 1
  refusal.cause.text ++ ": line " ++ toString line ++ " column " ++ toString column ++
    " (char " ++ toString refusal.offset ++ ")"

end Reader

open Reader in
def ofChars (text : List Char) : Except Refusal Json :=
  if text.head? = some '\ufeff' then .error ⟨.byteOrderMark, 0⟩
  else do
    let (value, next) ← readValue (2 * text.length + 1) (Cursor.mk 0 text).skipSpace
    let next := next.skipSpace
    if next.rest.isEmpty then return value else next.refuse .extraData

open Reader in
def ofString (text : String) : Except Refusal Json :=
  ofChars text.toList

end MonkeyLang.Json
