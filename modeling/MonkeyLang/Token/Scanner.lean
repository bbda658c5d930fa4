import MonkeyLang.Text.Blank
import MonkeyLang.Text.Digit
import MonkeyLang.Text.Letter
import MonkeyLang.Token

/-!
Scanning. A scanner stands at a position of the source and holds what is left from there on. Each
call of `next` skips blanks and takes one token; the class of a token is decided by its first
character and the one after it. A character that starts nothing becomes an illegal token, and a
string that is never closed runs to the end of the source. At the end every call gives the end
token and the scanner stays where it is.

What counts as a letter, a digit or a blank is a parameter, so the laws of scanning hold for every
alphabet; `Alphabet.unicode` is the one that programs are written in.
-/

set_option autoImplicit false

namespace MonkeyLang

structure Alphabet where
  isLetter : Char → Bool
  isDigit : Char → Bool
  isBlank : Char → Bool

namespace Alphabet

def unicode : Alphabet :=
  ⟨Text.isLetter, Text.isDigit, Text.isBlank⟩

def isWordChar (alphabet : Alphabet) (c : Char) : Bool :=
  alphabet.isLetter c || c = '_'

end Alphabet

structure Scanner where
  position : Nat
  rest : List Char
  deriving DecidableEq, Repr

namespace Scanner

def ofSource (source : String) : Scanner :=
  ⟨0, source.toList⟩

def current? (scanner : Scanner) : Option Char :=
  scanner.rest.head?

def peek? (scanner : Scanner) : Option Char :=
  scanner.rest.tail.head?

/-- Where the next character is read: always one past the position. -/
def readPosition (scanner : Scanner) : Nat :=
  scanner.position + 1

/-- Moves on by `count` characters; the position is counted on past the end of the source. -/
def advance (scanner : Scanner) (count : Nat) : Scanner :=
  ⟨scanner.position + count, scanner.rest.drop count⟩

def run (scanner : Scanner) (p : Char → Bool) : List Char :=
  scanner.rest.takeWhile p

def skipBlanks (alphabet : Alphabet) (scanner : Scanner) : Scanner :=
  scanner.advance (scanner.run alphabet.isBlank).length

/-- The kind of a token that does not depend on an alphabet, and its length. -/
def symbol? : List Char → Option (Kind × Nat)
  | '=' :: '=' :: _ => some (.eq, 2)
  | '!' :: '=' :: _ => some (.notEq, 2)
  | '=' :: _ => some (.assign, 1)
  | '!' :: _ => some (.bang, 1)
  | c :: _ => (Kind.ofSymbol? c).map (·, 1)
  | [] => none

/-- The token at a scanner that stands on the character `c`, and the characters it takes. The
quotes of a string are taken and not part of its text. -/
def tokenAt (alphabet : Alphabet) (scanner : Scanner) (c : Char) : Token × Nat :=
  match symbol? scanner.rest with
  | some (kind, count) => (⟨kind, .ofList (scanner.rest.take count)⟩, count)
  | none =>
    if c = '"' then
      let text := (scanner.advance 1).run (· ≠ '"')
      (⟨.string, .ofList text⟩, text.length + 2)
    else if alphabet.isWordChar c then
      let word := scanner.run alphabet.isWordChar
      (.ofWord (.ofList word), word.length)
    else if alphabet.isDigit c then
      let digits := scanner.run alphabet.isDigit
      (⟨.integer, .ofList digits⟩, digits.length)
    else (⟨.illegal, c.toString⟩, 1)

def next (alphabet : Alphabet) (scanner : Scanner) : Token × Scanner :=
  let start := scanner.skipBlanks alphabet
  match start.current? with
  | none => (.endOfInput, start)
  | some c =>
    let (token, count) := start.tokenAt alphabet c
    (token, start.advance count)

theorem symbol?_pos {text : List Char} {kind : Kind} {count : Nat}
    (h : symbol? text = some (kind, count)) : 0 < count := by
  unfold symbol? at h
  split at h <;> grind [Option.map_eq_some_iff]

/-- Every token takes at least one character. -/
theorem tokenAt_pos (alphabet : Alphabet) (scanner : Scanner) {c : Char}
    (h : scanner.current? = some c) : 0 < (scanner.tokenAt alphabet c).2 := by
  obtain ⟨position, rest⟩ := scanner
  cases rest with
  | nil => simp [current?] at h
  | cons d rest =>
    obtain rfl : d = c := by simpa [current?] using h
    unfold tokenAt
    split
    · rename_i kind count found
      simpa using symbol?_pos found
    · split
      · simp
      · split
        · rename_i word
          simp [run, word]
        · split
          · rename_i digit
            simp [run, digit]
          · simp

theorem length_rest_next_lt (alphabet : Alphabet) (scanner : Scanner) {c : Char}
    (h : (scanner.skipBlanks alphabet).current? = some c) :
    (scanner.next alphabet).2.rest.length < scanner.rest.length := by
  have pos := tokenAt_pos alphabet _ h
  have nonempty : 0 < (scanner.skipBlanks alphabet).rest.length := by
    cases hr : (scanner.skipBlanks alphabet).rest with
    | nil => simp [current?, hr] at h
    | cons => simp
  have le : (scanner.skipBlanks alphabet).rest.length ≤ scanner.rest.length := by
    simp [skipBlanks, advance]
  simp only [next, h, advance, List.length_drop]
  omega

/-- The tokens up to and including the first end token. -/
def tokens (alphabet : Alphabet) (scanner : Scanner) : List Token :=
  match h : (scanner.skipBlanks alphabet).current? with
  | none => [.endOfInput]
  | some _ =>
    have := length_rest_next_lt alphabet scanner h
    let step := scanner.next alphabet
    step.1 :: tokens alphabet step.2
termination_by scanner.rest.length

end Scanner

/-- The tokens of a source text; the last one, and only that, is the end token. -/
def tokenize (source : String) : List Token :=
  (Scanner.ofSource source).tokens .unicode

end MonkeyLang
