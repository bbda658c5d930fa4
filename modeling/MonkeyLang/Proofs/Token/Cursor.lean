import Mathlib.Tactic
import MonkeyLang.Proofs.Token.Layout

/-!
# Scanning one character at a time

A cursor keeps the whole source, the position of the current character, the position where the next
one is read, and the current character itself. It only ever moves by reading one more character, in
loops for blanks, words, numbers and strings, and texts are cut out of the source from one position
to another. That the three fields belong together is not part of what a cursor is.

A scanner stands for the cursor at its position (`Scanner.cursor`), and reading characters one after
the other comes to the same tokens and positions as the scanner, which takes whole runs of them
(`Scanner.next_cursor`). So the fields always belong together, whatever has been read. The position
passes the end of the source only by the missing quote of a string. Each token before the end takes
a character, and at the end the cursor stays where it is.
-/

set_option autoImplicit false

namespace MonkeyLang

/-- A place in a source, with the position where the next character is read. -/
structure Cursor where
  source : List Char
  position : Nat
  readPosition : Nat
  current? : Option Char
  deriving DecidableEq

namespace Cursor

/-- Moves on to the next character; from the end of the source on there is none. -/
def readChar (cursor : Cursor) : Cursor :=
  { cursor with
    position := cursor.readPosition
    readPosition := cursor.readPosition + 1
    current? := cursor.source[cursor.readPosition]? }

def ofSource (source : String) : Cursor :=
  readChar ⟨source.toList, 0, 0, none⟩

def peek? (cursor : Cursor) : Option Char :=
  cursor.source[cursor.readPosition]?

/-- Moves on as long as the characters have the property. -/
def readWhile (p : Char → Bool) (cursor : Cursor) : Cursor :=
  match _hcurrent : cursor.current? with
  | none => cursor
  | some c => if p c then readWhile p cursor.readChar else cursor
termination_by (cursor.source.drop cursor.readPosition).length + cursor.current?.toList.length
decreasing_by
  rw [_hcurrent, readChar]
  -- Behind the end there is no character any more; before it there is less to read.
  by_cases hend : cursor.source.length ≤ cursor.readPosition
  · simp [List.getElem?_eq_none hend, List.drop_eq_nil_of_le hend,
      List.drop_eq_nil_of_le (Nat.le_succ_of_le hend)]
  · simp only [List.length_drop, Option.toList_some, List.length_singleton]
    have hlast := Option.length_toList_le (o := cursor.source[cursor.readPosition]?)
    omega

/-- The text from a position up to the one of the cursor. -/
def textFrom (start : Nat) (cursor : Cursor) : String :=
  .ofList ((cursor.source.drop start).take (cursor.position - start))

/-- The operator that is a character by itself, or the longer one if `=` follows. -/
def readOperator (single double : Kind) (cursor : Cursor) (c : Char) : Token × Cursor :=
  if cursor.peek? = some '=' then (⟨double, .ofList [c, '=']⟩, cursor.readChar.readChar)
  else (⟨single, c.toString⟩, cursor.readChar)

/-- What stands between quotes. Without a second quote it runs to the end of the source. -/
def readString (cursor : Cursor) : Token × Cursor :=
  let start := cursor.readChar
  let stop := start.readWhile (· ≠ '"')
  (⟨.string, stop.textFrom start.position⟩, stop.readChar)

/-- The token that starts with the character `c`, at which the cursor stands. -/
def readToken (alphabet : Alphabet) (cursor : Cursor) (c : Char) : Token × Cursor :=
  if c = '=' then cursor.readOperator .assign .eq c
  else if c = '!' then cursor.readOperator .bang .notEq c
  else
    match Kind.ofSymbol? c with
    | some kind => (⟨kind, c.toString⟩, cursor.readChar)
    | none =>
      if c = '"' then cursor.readString
      else if alphabet.isWordChar c then
        let stop := cursor.readWhile alphabet.isWordChar
        (.ofWord (stop.textFrom cursor.position), stop)
      else if alphabet.isDigit c then
        let stop := cursor.readWhile alphabet.isDigit
        (⟨.integer, stop.textFrom cursor.position⟩, stop)
      else (⟨.illegal, c.toString⟩, cursor.readChar)

def next (alphabet : Alphabet) (cursor : Cursor) : Token × Cursor :=
  let start := cursor.readWhile alphabet.isBlank
  match start.current? with
  | none => (.endOfInput, start)
  | some c => start.readToken alphabet c

/-- The cursor after so many further tokens have been taken. -/
def after (alphabet : Alphabet) (cursor : Cursor) (calls : Nat) : Cursor :=
  (fun cursor ↦ (next alphabet cursor).2)^[calls] cursor

/-- The fields belong together and to the source. -/
structure Consistent (cursor : Cursor) : Prop where
  readPosition : cursor.readPosition = cursor.position + 1
  current? : cursor.current? = cursor.source[cursor.position]?
  position : cursor.position ≤ cursor.source.length + 1

end Cursor

namespace Scanner

/-! ### A scanner as a cursor -/

/-- The cursor at the position of a scanner. -/
def cursor (source : List Char) (scanner : Scanner) : Cursor :=
  ⟨source, scanner.position, scanner.readPosition, scanner.current?⟩

/-- What is left is what the source has from the position on. -/
def ReadsFrom (source : List Char) (scanner : Scanner) : Prop :=
  scanner.rest = source.drop scanner.position

variable {alphabet : Alphabet} {source : List Char} {scanner : Scanner}

theorem ReadsFrom.advance (h : scanner.ReadsFrom source) (count : Nat) :
    (scanner.advance count).ReadsFrom source := by
  show scanner.rest.drop count = source.drop (scanner.position + count)
  rw [h, List.drop_drop]

theorem advance_add (scanner : Scanner) (first second : Nat) :
    (scanner.advance first).advance second = scanner.advance (first + second) := by
  rw [Scanner.advance, Scanner.advance, Scanner.advance, List.drop_drop, Nat.add_assoc]

theorem ReadsFrom.current?_eq (h : scanner.ReadsFrom source) :
    scanner.current? = source[scanner.position]? := by
  rw [current?, h, List.head?_drop]

theorem readChar_cursor (h : scanner.ReadsFrom source) :
    (scanner.cursor source).readChar = (scanner.advance 1).cursor source := by
  rw [Cursor.readChar, cursor, cursor, (h.advance 1).current?_eq]
  rfl

theorem peek?_cursor (h : scanner.ReadsFrom source) :
    (scanner.cursor source).peek? = scanner.peek? := by
  rw [peek?, h, List.tail_drop, List.head?_drop]
  rfl

/-- A loop takes the whole run of characters. -/
theorem readWhile_cursor (p : Char → Bool) (h : scanner.ReadsFrom source) :
    (scanner.cursor source).readWhile p =
      (scanner.advance (scanner.run p).length).cursor source := by
  obtain ⟨position, rest⟩ := scanner
  induction rest generalizing position with
  | nil =>
    rw [Cursor.readWhile]
    rfl
  | cons c rest ih =>
    rw [Cursor.readWhile]
    show (if p c then _ else _) = _
    by_cases hc : p c
    · have hstep := readChar_cursor h
      rw [if_pos hc, hstep]
      refine (ih (position + 1) (h.advance 1)).trans ?_
      rw [run, run, List.takeWhile_cons_of_pos hc, List.length_cons, Scanner.advance,
        Scanner.advance, List.drop_succ_cons, Nat.add_right_comm, Nat.add_assoc]
    · rw [if_neg hc, run, List.takeWhile_cons_of_neg hc]
      rfl

theorem textFrom_cursor (h : scanner.ReadsFrom source) (count : Nat) :
    ((scanner.advance count).cursor source).textFrom scanner.position =
      .ofList (scanner.rest.take count) := by
  rw [Cursor.textFrom, h]
  show String.ofList ((source.drop scanner.position).take
    (scanner.position + count - scanner.position)) = _
  rw [Nat.add_sub_cancel_left]

/-- The text that a loop has run over. -/
theorem textFrom_readWhile_cursor (p : Char → Bool) (h : scanner.ReadsFrom source) :
    ((scanner.cursor source).readWhile p).textFrom scanner.position = .ofList (scanner.run p) := by
  rw [readWhile_cursor p h, textFrom_cursor h, run]
  exact congrArg _ (List.prefix_iff_eq_take.mp (List.takeWhile_prefix p)).symm

/-- The symbols that start with a character, by the character behind it. -/
theorem symbol?_cons (c : Char) (text : List Char) :
    symbol? (c :: text) =
      if c = '=' then some (if text.head? = some '=' then (.eq, 2) else (.assign, 1))
      else if c = '!' then some (if text.head? = some '=' then (.notEq, 2) else (.bang, 1))
      else (Kind.ofSymbol? c).map (·, 1) := by
  cases text with
  | nil =>
    unfold symbol?
    grind
  | cons d rest =>
    unfold symbol?
    grind

/-- Of an operator the cursor takes what the scanner takes. -/
theorem readOperator_cursor {c : Char} {text : List Char} {position : Nat}
    (h : ReadsFrom source ⟨position, c :: text⟩) (single double : Kind) :
    (cursor source ⟨position, c :: text⟩).readOperator single double c =
      let found := if text.head? = some '=' then (double, 2) else (single, 1)
      (⟨found.1, .ofList ((c :: text).take found.2)⟩,
        (advance ⟨position, c :: text⟩ found.2).cursor source) := by
  rw [Cursor.readOperator, peek?_cursor h, peek?, List.tail_cons, readChar_cursor h,
    readChar_cursor (h.advance 1), advance_add]
  by_cases hequals : text.head? = some '='
  · obtain ⟨rest, rfl⟩ := List.head?_eq_some_iff.mp hequals
    rfl
  · rw [if_neg hequals, if_neg hequals]
    rfl

theorem readString_cursor {text : List Char} {position : Nat}
    (h : ReadsFrom source ⟨position, '"' :: text⟩) :
    (cursor source ⟨position, '"' :: text⟩).readString =
      (⟨.string, .ofList (text.takeWhile (· ≠ '"'))⟩,
        (advance ⟨position, '"' :: text⟩ ((text.takeWhile (· ≠ '"')).length + 2)).cursor
          source) := by
  have hinside := h.advance 1
  rw [Cursor.readString, readChar_cursor h]
  refine Prod.ext (congrArg (Token.mk .string) (textFrom_readWhile_cursor _ hinside)) ?_
  show ((cursor source _).readWhile _).readChar = _
  rw [readWhile_cursor _ hinside, readChar_cursor (hinside.advance _), advance_add, advance_add,
    Nat.add_comm 1]
  rfl

theorem readToken_cursor (alphabet : Alphabet) {c : Char} (h : scanner.ReadsFrom source)
    (hcurrent : scanner.current? = some c) :
    (scanner.cursor source).readToken alphabet c =
      ((scanner.tokenAt alphabet c).1,
        (scanner.advance (scanner.tokenAt alphabet c).2).cursor source) := by
  obtain ⟨position, rest⟩ := scanner
  obtain ⟨text, rfl⟩ := List.head?_eq_some_iff.mp hcurrent
  rw [Cursor.readToken, tokenAt, symbol?_cons]
  by_cases hassign : c = '='
  · rw [if_pos hassign, if_pos hassign, readOperator_cursor h]
  by_cases hbang : c = '!'
  · rw [if_neg hassign, if_pos hbang, if_neg hassign, if_pos hbang, readOperator_cursor h]
  rw [if_neg hassign, if_neg hbang, if_neg hassign, if_neg hbang, readChar_cursor h]
  cases Kind.ofSymbol? c with
  | some kind => rfl
  | none =>
    dsimp only [Option.map_none]
    by_cases hquote : c = '"'
    · subst hquote
      rw [if_pos rfl, if_pos rfl, readString_cursor h]
      rfl
    rw [if_neg hquote, if_neg hquote]
    by_cases hword : alphabet.isWordChar c
    · rw [if_pos hword, if_pos hword, ← textFrom_readWhile_cursor _ h, readWhile_cursor _ h]
      rfl
    rw [if_neg hword, if_neg hword]
    by_cases hdigit : alphabet.isDigit c
    · rw [if_pos hdigit, if_pos hdigit, ← textFrom_readWhile_cursor _ h, readWhile_cursor _ h]
      rfl
    · rw [if_neg hdigit, if_neg hdigit]

/-- Reading one character after the other comes to the same token and to the same place. -/
theorem next_cursor (alphabet : Alphabet) (h : scanner.ReadsFrom source) :
    (scanner.cursor source).next alphabet =
      ((scanner.next alphabet).1, (scanner.next alphabet).2.cursor source) := by
  have hstart : (scanner.skipBlanks alphabet).ReadsFrom source := h.advance _
  rw [Cursor.next, readWhile_cursor _ h, next]
  show (match (scanner.skipBlanks alphabet).current? with
    | none => _
    | some c => ((scanner.skipBlanks alphabet).cursor source).readToken alphabet c) = _
  cases hcurrent : (scanner.skipBlanks alphabet).current? with
  | none => rfl
  | some c => exact readToken_cursor alphabet hstart hcurrent

/-! ### Positions -/

theorem symbol?_le {text : List Char} {kind : Kind} {count : Nat}
    (h : symbol? text = some (kind, count)) : count ≤ 2 := by
  unfold symbol? at h
  split at h <;> grind [Option.map_eq_some_iff]

/-- Only a string takes more than what is left, by the quote that it lacks. -/
theorem tokenAt_le (alphabet : Alphabet) {c : Char} (hcurrent : scanner.current? = some c) :
    (scanner.tokenAt alphabet c).2 ≤ scanner.rest.length + 1 := by
  obtain ⟨position, rest⟩ := scanner
  obtain ⟨text, rfl⟩ := List.head?_eq_some_iff.mp hcurrent
  have hrun (p : Char → Bool) (text : List Char) : (text.takeWhile p).length ≤ text.length :=
    (List.takeWhile_sublist p).length_le
  unfold tokenAt
  split
  · rename_i kind count hfound
    exact (symbol?_le hfound).trans (by simp)
  split_ifs with hquote hword hdigit
  · exact Nat.add_le_add_right (hrun _ text) 2
  · exact Nat.le_succ_of_le (hrun _ (c :: text))
  · exact Nat.le_succ_of_le (hrun _ (c :: text))
  · exact Nat.le_add_left _ _

theorem ReadsFrom.next (h : scanner.ReadsFrom source) (alphabet : Alphabet) :
    (scanner.next alphabet).2.ReadsFrom source := by
  rw [Scanner.next]
  cases (scanner.skipBlanks alphabet).current? with
  | none => exact h.advance _
  | some c => exact (h.advance _).advance _

theorem ReadsFrom.position_next_le (h : scanner.ReadsFrom source)
    (hposition : scanner.position ≤ source.length + 1) (alphabet : Alphabet) :
    (scanner.next alphabet).2.position ≤ source.length + 1 := by
  have hrest : scanner.rest.length = source.length - scanner.position := by
    rw [h, List.length_drop]
  have hblanks : (scanner.run alphabet.isBlank).length ≤ scanner.rest.length :=
    (List.takeWhile_sublist _).length_le
  have hstart : (scanner.skipBlanks alphabet).position =
    scanner.position + (scanner.run alphabet.isBlank).length := rfl
  rw [Scanner.next]
  cases hcurrent : (scanner.skipBlanks alphabet).current? with
  | none =>
    show (scanner.skipBlanks alphabet).position ≤ _
    omega
  | some c =>
    -- A character is left, so the token starts before the end of the source.
    have hreads : (scanner.skipBlanks alphabet).ReadsFrom source := h.advance _
    have hinside : (scanner.skipBlanks alphabet).position < source.length := by
      rw [hreads.current?_eq] at hcurrent
      exact (List.getElem?_eq_some_iff.mp hcurrent).1
    have hcount := tokenAt_le alphabet hcurrent
    rw [hreads, List.length_drop] at hcount
    show (scanner.skipBlanks alphabet).position +
      ((scanner.skipBlanks alphabet).tokenAt alphabet c).2 ≤ _
    omega

/-! ### The end of the source -/

/-- Nothing but blanks is left. -/
def Spent (alphabet : Alphabet) (scanner : Scanner) : Prop :=
  (scanner.skipBlanks alphabet).current? = none

theorem spent_iff : scanner.Spent alphabet ↔ ∀ c ∈ scanner.rest, alphabet.isBlank c := by
  rw [Spent, current?, rest_skipBlanks, List.head?_eq_none_iff, List.dropWhile_eq_nil_iff]

theorem Spent.next_eq (h : scanner.Spent alphabet) :
    scanner.next alphabet = (.endOfInput, scanner.skipBlanks alphabet) := by
  rw [next, h]

/-- At the end the scanner stays where it is. -/
theorem Spent.skipBlanks_skipBlanks (h : scanner.Spent alphabet) :
    (scanner.skipBlanks alphabet).skipBlanks alphabet = scanner.skipBlanks alphabet := by
  have hnil : (scanner.skipBlanks alphabet).rest = [] := List.head?_eq_none_iff.mp h
  generalize scanner.skipBlanks alphabet = start at hnil
  rw [skipBlanks, run, hnil]
  rfl

theorem Spent.skipBlanks (h : scanner.Spent alphabet) :
    (scanner.skipBlanks alphabet).Spent alphabet := by
  rw [Spent, h.skipBlanks_skipBlanks]
  exact h

theorem position_lt_next (h : ¬scanner.Spent alphabet) :
    scanner.position < (scanner.next alphabet).2.position := by
  obtain ⟨c, hcurrent⟩ := Option.ne_none_iff_exists'.mp h
  have hcount := tokenAt_pos alphabet _ hcurrent
  rw [Scanner.next, hcurrent]
  show _ < scanner.position + (scanner.run alphabet.isBlank).length +
    ((scanner.skipBlanks alphabet).tokenAt alphabet c).2
  omega

/-- Only the end of the source gives an end token. -/
theorem kind_next_eq_end_iff :
    (scanner.next alphabet).1.kind = .endOfInput ↔ scanner.Spent alphabet := by
  constructor
  · intro hkind
    by_contra hspent
    obtain ⟨c, hcurrent⟩ := Option.ne_none_iff_exists'.mp hspent
    obtain ⟨text, htext⟩ := List.head?_eq_some_iff.mp hcurrent
    have hblank := (rest_eq_append alphabet scanner).2 c hcurrent
    obtain ⟨token, count, own, after, htoken, -, -, hstands⟩ :=
      exists_stands hblank text (scanner.skipBlanks alphabet).position
    rw [← htext] at htoken
    rw [Scanner.next_eq hcurrent htoken] at hkind
    exact hstands.producible.not_end hkind
  · intro hspent
    rw [hspent.next_eq]
    rfl

/-! ### Call after call -/

/-- The scanner after so many further tokens have been taken. -/
def after (alphabet : Alphabet) (scanner : Scanner) (calls : Nat) : Scanner :=
  (fun scanner ↦ (next alphabet scanner).2)^[calls] scanner

theorem after_succ (alphabet : Alphabet) (scanner : Scanner) (calls : Nat) :
    scanner.after alphabet (calls + 1) = ((scanner.after alphabet calls).next alphabet).2 :=
  Function.iterate_succ_apply' _ _ _

theorem ReadsFrom.after (h : scanner.ReadsFrom source)
    (hposition : scanner.position ≤ source.length + 1) (alphabet : Alphabet) (calls : Nat) :
    (scanner.after alphabet calls).ReadsFrom source ∧
      (scanner.after alphabet calls).position ≤ source.length + 1 := by
  induction calls with
  | zero => exact ⟨h, hposition⟩
  | succ calls ih =>
    rw [after_succ]
    exact ⟨ih.1.next alphabet, ih.1.position_next_le ih.2 alphabet⟩

theorem after_cursor (h : scanner.ReadsFrom source) (alphabet : Alphabet) (calls : Nat) :
    (scanner.cursor source).after alphabet calls =
      (scanner.after alphabet calls).cursor source := by
  induction calls generalizing scanner with
  | zero => rfl
  | succ calls ih =>
    show ((scanner.cursor source).next alphabet).2.after alphabet calls = _
    rw [next_cursor alphabet h]
    exact ih (h.next alphabet)

/-- Once nothing but blanks is left, the next call skips them, and then nothing changes any more. -/
theorem after_of_spent {calls later : Nat} (h : (scanner.after alphabet calls).Spent alphabet)
    (hlater : calls < later) :
    scanner.after alphabet later = (scanner.after alphabet calls).skipBlanks alphabet := by
  induction later, hlater using Nat.le_induction with
  | base => rw [after_succ, h.next_eq]
  | succ later _ ih => rw [after_succ, ih, h.skipBlanks.next_eq, h.skipBlanks_skipBlanks]

theorem Spent.after (h : scanner.Spent alphabet) (calls : Nat) :
    (scanner.after alphabet calls).Spent alphabet := by
  induction calls with
  | zero => exact h
  | succ calls ih =>
    rw [after_succ, ih.next_eq]
    exact ih.skipBlanks

/-- The tokens are those of the calls before nothing but blanks is left, and the end token. -/
theorem exists_tokens_eq (alphabet : Alphabet) (scanner : Scanner) :
    ∃ count ≤ scanner.rest.length,
      scanner.tokens alphabet = (List.range count).map
        (fun calls ↦ ((scanner.after alphabet calls).next alphabet).1) ++ [.endOfInput] ∧
      ∀ calls, (scanner.after alphabet calls).Spent alphabet ↔ count ≤ calls := by
  fun_induction tokens alphabet scanner with
  | case1 scanner hcurrent =>
    have hspent : scanner.Spent alphabet := hcurrent
    exact ⟨0, Nat.zero_le _, rfl, fun calls ↦ iff_of_true (hspent.after calls) (Nat.zero_le _)⟩
  | case2 scanner c hcurrent hshorter step ih =>
    obtain ⟨count, hcount, htokens, hspent⟩ := ih
    refine ⟨count + 1, Nat.succ_le_of_lt (Nat.lt_of_le_of_lt hcount hshorter), ?_, ?_⟩
    · rw [htokens, List.range_succ_eq_map, List.map_cons, List.map_map]
      rfl
    · intro calls
      cases calls with
      | zero =>
        refine iff_of_false (fun h : scanner.Spent alphabet ↦ ?_) (Nat.not_succ_le_zero count)
        cases hcurrent.symm.trans h
      | succ calls => exact (hspent calls).trans Nat.succ_le_succ_iff.symm

theorem readsFrom_ofSource (source : String) : (ofSource source).ReadsFrom source.toList :=
  List.drop_zero.symm

theorem after_ofSource (alphabet : Alphabet) (source : String) (calls : Nat) :
    ((ofSource source).after alphabet calls).ReadsFrom source.toList ∧
      ((ofSource source).after alphabet calls).position ≤ source.toList.length + 1 :=
  (readsFrom_ofSource source).after (Nat.zero_le _) alphabet calls

/-- From the start of a source on the cursor is where the scanner is. -/
theorem cursor_after_ofSource (alphabet : Alphabet) (source : String) (calls : Nat) :
    (Cursor.ofSource source).after alphabet calls =
      ((ofSource source).after alphabet calls).cursor source.toList := by
  have hstart : (ofSource source).cursor source.toList = Cursor.ofSource source := by
    rw [cursor, (readsFrom_ofSource source).current?_eq]
    rfl
  rw [← after_cursor (readsFrom_ofSource source), hstart]

end Scanner

/-- Whatever counts as a letter, a digit or a blank, after any number of calls the fields of the
cursor belong together, and it is where the scanner is. A call that gives another token than the end
token moves on; a call gives the end token exactly if nothing but blanks was left, and from the next
call on nothing changes any more. So the tokens of a source are those of its calls up to the first
end token, at most one more than it has characters. -/
theorem scanning_is_consistent_and_progresses (alphabet : Alphabet) (source : String) :
    let scanner (calls : Nat) := (Scanner.ofSource source).after alphabet calls
    let cursor (calls : Nat) := (Cursor.ofSource source).after alphabet calls
    let token (calls : Nat) := ((cursor calls).next alphabet).1
    (∀ calls,
      cursor calls = (scanner calls).cursor source.toList ∧
      token calls = ((scanner calls).next alphabet).1 ∧
      (cursor calls).Consistent ∧
      ((token calls).kind ≠ .endOfInput →
        (cursor calls).position < (cursor (calls + 1)).position) ∧
      ((token calls).kind = .endOfInput ↔
        ∀ c ∈ source.toList.drop (cursor calls).position, alphabet.isBlank c) ∧
      ((token calls).kind = .endOfInput → token calls = .endOfInput ∧ ∀ later > calls,
        token later = .endOfInput ∧ cursor later = cursor (calls + 1))) ∧
    ∃ count ≤ source.length,
      (Scanner.ofSource source).tokens alphabet =
        (List.range count).map token ++ [.endOfInput] ∧
      ∀ calls, (token calls).kind = .endOfInput ↔ count ≤ calls := by
  intro scanner cursor token
  have hreads := Scanner.after_ofSource alphabet source
  have hcursor (calls : Nat) : cursor calls = (scanner calls).cursor source.toList :=
    Scanner.cursor_after_ofSource alphabet source calls
  have htoken (calls : Nat) : token calls = ((scanner calls).next alphabet).1 := by
    show ((cursor calls).next alphabet).1 = _
    rw [hcursor, Scanner.next_cursor alphabet (hreads calls).1]
  have hend (calls : Nat) :
      (token calls).kind = .endOfInput ↔ (scanner calls).Spent alphabet := by
    rw [htoken, Scanner.kind_next_eq_end_iff]
  have hspent {calls : Nat} (h : (scanner calls).Spent alphabet) : token calls = .endOfInput := by
    rw [htoken, h.next_eq]
  refine ⟨fun calls ↦ ⟨hcursor calls, htoken calls, ?_, ?_, ?_, ?_⟩, ?_⟩
  · rw [hcursor]
    exact ⟨rfl, (hreads calls).1.current?_eq, (hreads calls).2⟩
  · intro hkind
    rw [hcursor, hcursor]
    show (scanner calls).position < ((Scanner.ofSource source).after alphabet (calls + 1)).position
    rw [Scanner.after_succ]
    exact Scanner.position_lt_next fun h ↦ hkind ((hend calls).mpr h)
  · rw [hend, Scanner.spent_iff, hcursor, (hreads calls).1]
    rfl
  · intro hkind
    have hnow := (hend calls).mp hkind
    refine ⟨hspent hnow, fun later hlater ↦ ?_⟩
    have hstays {later : Nat} (hlater : calls < later) :
        scanner later = (scanner calls).skipBlanks alphabet :=
      Scanner.after_of_spent hnow hlater
    refine ⟨hspent ?_, ?_⟩
    · rw [hstays hlater]
      exact hnow.skipBlanks
    · rw [hcursor, hcursor, hstays hlater, hstays (Nat.lt_succ_self calls)]
  · obtain ⟨count, hcount, htokens, hcalls⟩ := (Scanner.ofSource source).exists_tokens_eq alphabet
    refine ⟨count, hcount, ?_, fun calls ↦ (hend calls).trans (hcalls calls)⟩
    rw [htokens]
    exact congrArg (· ++ _) (List.map_congr_left fun calls _ ↦ (htoken calls).symm)

/-- A string without its second quote leads past the end, and the end token is given there. -/
example :
    let scanner (calls : Nat) := (Scanner.ofSource "x = \"a").after .unicode calls
    (scanner 3).position = "x = \"a".length + 1 ∧ (scanner 3).current? = none ∧
      scanner 4 = scanner 3 := by
  decide +kernel

end MonkeyLang
