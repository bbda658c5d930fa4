import Mathlib.Tactic
import MonkeyLang.Json.Reader
import MonkeyLang.Json.Writer

/-!
# Reading back the scalars of JSON

Space, strings and integers. Space is skipped up to the next character that is none. A string is
read back from its quoted form because one round of reading undoes one escape, and an integer from
its digits because nothing that makes a number longer may follow. Where reading stopped is only
counted for the sake of refusals, so the lemmas say that there is such a place, not which.
-/

set_option autoImplicit false

namespace MonkeyLang

@[simp] theorem ok_bind {ε α β : Type} (value : α) (next : α → Except ε β) :
    (Except.ok value >>= next) = next value :=
  rfl

@[simp] theorem pure_eq_ok {ε α : Type} (value : α) : (pure value : Except ε α) = .ok value :=
  rfl

namespace Json

open Reader Writer

/-! ### Space between tokens -/

theorem isSpace_of_mem_newline {indent : Nat} {c : Char} (h : c ∈ (newline indent).toList) :
    Cursor.isSpace c := by
  rw [newline, String.toList_ofList, List.mem_cons, List.mem_replicate] at h
  rcases h with rfl | ⟨-, rfl⟩
  · rfl
  · rfl

theorem skipSpace_append {blank rest : List Char} {c : Char} (offset : Nat)
    (hblank : ∀ c ∈ blank, Cursor.isSpace c) (hc : Cursor.isSpace c = false) :
    (Cursor.mk offset (blank ++ c :: rest)).skipSpace = ⟨offset + blank.length, c :: rest⟩ := by
  have hrun : (blank ++ c :: rest).takeWhile Cursor.isSpace = blank := by
    rw [List.takeWhile_append_of_pos hblank, List.takeWhile_cons_of_neg (by simp [hc]),
      List.append_nil]
  rw [Cursor.skipSpace, hrun, Cursor.advance, List.drop_left]

theorem skipSpace_newline {rest : List Char} {c : Char} (offset indent : Nat)
    (hc : Cursor.isSpace c = false) :
    (Cursor.mk offset ((newline indent).toList ++ c :: rest)).skipSpace =
      ⟨offset + (newline indent).toList.length, c :: rest⟩ :=
  skipSpace_append offset (fun _ ↦ isSpace_of_mem_newline) hc

theorem skipSpace_cons {rest : List Char} {c : Char} (offset : Nat)
    (hc : Cursor.isSpace c = false) :
    (Cursor.mk offset (c :: rest)).skipSpace = ⟨offset, c :: rest⟩ :=
  skipSpace_append offset (List.forall_mem_nil _) hc

/-! ### Strings -/

theorem codeUnit?_hexadecimal : ∀ n < 32, ∀ (next : Char) (rest : List Char),
    codeUnit? (Text.hexadecimal 4 n ++ next :: rest) = some n := by
  intro n hn next rest
  interval_cases n <;> rfl

theorem length_hexadecimal : ∀ n < 32, (Text.hexadecimal 4 n).length = 4 := by
  decide

theorem escapedUnit_hexadecimal {n : Nat} (hn : n < 32) (offset : Nat) (next : Char)
    (rest : List Char) :
    escapedUnit ⟨offset, Text.hexadecimal 4 n ++ next :: rest⟩ = .ok (Char.ofNat n, 4) := by
  have hhigh : isHighSurrogate n = false := by
    rw [isHighSurrogate, Bool.and_eq_false_iff]
    exact .inl (decide_eq_false (by omega))
  simp [escapedUnit, codeUnit?_hexadecimal n hn, hhigh]

/-- One round of reading undoes one escape. -/
theorem readString_escape (opened offset : Nat) (first c next : Char)
    (bound done rest : List Char) :
    readString opened (first :: bound) ⟨offset, escape c ++ next :: rest⟩ done =
      readString opened bound ⟨offset + (escape c).length, next :: rest⟩ (c :: done) := by
  unfold escape
  split_ifs with hquote hbackslash hnewline hreturn htab hback hfeed hcontrol
  · subst hquote; rfl
  · subst hbackslash; rfl
  · subst hnewline; rfl
  · subst hreturn; rfl
  · subst htab; rfl
  · subst hback; rfl
  · subst hfeed; rfl
  · have hunit := escapedUnit_hexadecimal hcontrol (offset + 2) next rest
    have hlength := length_hexadecimal _ hcontrol
    have hdrop : (Text.hexadecimal 4 c.toNat ++ next :: rest).drop 4 = next :: rest :=
      List.drop_left' hlength
    rw [Char.ofNat_toNat] at hunit
    simp [codeUnit, readString, Cursor.advance, hunit, hlength]
  · simp [readString, hbackslash, hcontrol, Cursor.advance]

/-- The rest of a string is read up to the quote that closes it. -/
theorem readString_escaped (text : List Char) {opened offset : Nat} {bound done rest : List Char}
    (hbound : text.length < bound.length) :
    ∃ offset', readString opened bound ⟨offset, text.flatMap escape ++ '"' :: rest⟩ done =
      .ok (.ofList (done.reverse ++ text), ⟨offset', rest⟩) := by
  induction text generalizing offset bound done with
  | nil =>
    obtain ⟨first, bound, rfl⟩ := List.exists_cons_of_length_pos hbound
    exact ⟨offset + 1, by simp [readString, Cursor.advance]⟩
  | cons c text ih =>
    obtain ⟨first, bound, rfl⟩ := List.exists_cons_of_length_pos (Nat.zero_lt_of_lt hbound)
    obtain ⟨next, more, hmore⟩ : ∃ next more, text.flatMap escape ++ '"' :: rest = next :: more :=
      List.exists_cons_of_ne_nil (by simp)
    obtain ⟨offset', hread⟩ :=
      @ih (offset + (escape c).length) bound (c :: done) (by simpa using hbound)
    refine ⟨offset', ?_⟩
    rw [hmore] at hread
    rw [List.flatMap_cons, List.append_assoc, hmore, readString_escape, hread, List.reverse_cons,
      List.append_assoc, List.singleton_append]

theorem toList_stringText (s : String) :
    (stringText s).toList = '"' :: (s.toList.flatMap escape ++ ['"']) := by
  simp [stringText, quotedWith]

theorem length_le_flatMap_escape (text : List Char) :
    text.length ≤ (text.flatMap escape).length := by
  have hescape (c : Char) : 1 ≤ (escape c).length := by
    unfold escape
    split_ifs <;> simp [codeUnit]
  induction text with
  | nil => exact Nat.zero_le _
  | cons c text ih =>
    rw [List.flatMap_cons, List.length_append, List.length_cons]
    have := hescape c
    omega

/-- A string is read back from its quoted form. -/
theorem readString_stringText (s : String) (offset : Nat) (rest : List Char) :
    ∃ offset', readString offset ((stringText s).toList ++ rest)
        ((Cursor.mk offset ((stringText s).toList ++ rest)).advance 1) [] =
      .ok (s, ⟨offset', rest⟩) := by
  have hbound : s.toList.length < ((stringText s).toList ++ rest).length := by
    have := length_le_flatMap_escape s.toList
    simp only [toList_stringText, List.length_append, List.length_cons]
    omega
  obtain ⟨offset', hread⟩ :=
    @readString_escaped s.toList offset (offset + 1) _ [] rest hbound
  refine ⟨offset', ?_⟩
  rw [List.reverse_nil, List.nil_append, String.ofList_toList] at hread
  rw [← hread]
  simp [toList_stringText, Cursor.advance]

/-! ### Integers -/

theorem head?_toDigits_ne_zero {n : Nat} (hn : n ≠ 0) : (Nat.toDigits 10 n).head? ≠ some '0' := by
  induction n using Nat.strong_induction_on with
  | _ n ih =>
    by_cases hlt : n < 10
    · rw [Nat.toDigits_of_lt_base hlt]
      interval_cases n
      · exact absurd rfl hn
      all_goals decide
    · rw [Nat.toDigits_of_base_le (by decide) (by omega),
        List.head?_append_of_ne_nil _ Nat.toDigits_ne_nil]
      exact ih (n / 10) (by omega) (by omega)

/-- What may stand behind a number without making it longer. -/
def Ended (rest : List Char) : Prop :=
  ∀ c ∈ rest.head?, c = ',' ∨ c = '\n'

theorem isAsciiDigit_of_mem_toDigits {n : Nat} {c : Char} (h : c ∈ Nat.toDigits 10 n) :
    isAsciiDigit c := by
  have hdigit := Nat.isDigit_of_mem_toDigits (by decide) (by decide) h
  exact hdigit

theorem digitRun_toDigits (n : Nat) {rest : List Char} (hrest : Ended rest) :
    digitRun (Nat.toDigits 10 n ++ rest) = Nat.toDigits 10 n := by
  rw [digitRun, List.takeWhile_append_of_pos fun c ↦ isAsciiDigit_of_mem_toDigits]
  cases rest with
  | nil => simp
  | cons c rest =>
    rw [List.takeWhile_cons_of_neg, List.append_nil]
    rcases hrest c rfl with rfl | rfl
    · decide
    · decide

theorem wholeDigits_toDigits (n : Nat) {rest : List Char} (hrest : Ended rest) :
    wholeDigits (Nat.toDigits 10 n ++ rest) = Nat.toDigits 10 n := by
  by_cases hn : n = 0
  · subst hn
    rfl
  · have hhead := head?_toDigits_ne_zero hn
    rw [wholeDigits, digitRun_toDigits n hrest]
    intro more heq
    obtain ⟨digit, digits, hdigits⟩ := List.exists_cons_of_ne_nil (@Nat.toDigits_ne_nil n 10)
    rw [hdigits] at heq hhead
    obtain rfl := (List.cons.inj heq).1
    exact hhead rfl

theorem natOfDigits_toDigits (n : Nat) : natOfDigits (Nat.toDigits 10 n) = n := by
  have h := @Nat.ofDigitChars_ten_toDigits n
  rw [Nat.ofDigitChars_eq_foldl] at h
  exact h

theorem fractionDigits_of_ended {rest : List Char} (hrest : Ended rest) :
    fractionDigits rest = [] := by
  cases rest with
  | nil => rfl
  | cons c rest =>
    rcases hrest c rfl with rfl | rfl
    · rfl
    · rfl

theorem exponentPart_of_ended {rest : List Char} (hrest : Ended rest) :
    exponentPart rest = none := by
  cases rest with
  | nil => rfl
  | cons c rest =>
    rcases hrest c rfl with rfl | rfl
    · rfl
    · rfl


/-- The text of an integer: a sign in front of a negative one, then its digits. -/
theorem toList_toString_int (n : Int) :
    (toString n).toList = (if n < 0 then ['-'] else []) ++ Nat.toDigits 10 n.natAbs := by
  cases n with
  | ofNat n =>
    show (toString n).toList = _
    rw [Nat.toString_eq_ofList_toDigits]
    simp
  | negSucc n =>
    show ("-" ++ toString (n + 1)).toList = _
    rw [Nat.toString_eq_ofList_toDigits]
    simp

theorem head?_toDigits_ne_minus (n : Nat) : (Nat.toDigits 10 n).head? ≠ some '-' :=
  fun h ↦ absurd (isAsciiDigit_of_mem_toDigits (List.mem_of_mem_head? h)) (by decide)

/-- The text of an integer starts with a digit, or with a minus and then a digit. -/
theorem exists_digit_toString (n : Int) : ∃ digit more, isAsciiDigit digit ∧
    ((toString n).toList = digit :: more ∨ (toString n).toList = '-' :: digit :: more) := by
  obtain ⟨digit, more, hdigits⟩ := List.exists_cons_of_ne_nil (@Nat.toDigits_ne_nil n.natAbs 10)
  refine ⟨digit, more, isAsciiDigit_of_mem_toDigits (hdigits ▸ List.mem_cons_self), ?_⟩
  rw [toList_toString_int, hdigits]
  by_cases hnegative : n < 0
  · exact .inr (by rw [if_pos hnegative, List.singleton_append])
  · exact .inl (by rw [if_neg hnegative, List.nil_append])

theorem ne_of_isAsciiDigit {digit c : Char} (hdigit : isAsciiDigit digit)
    (hc : isAsciiDigit c = false) : digit ≠ c := by
  rintro rfl
  rw [hdigit] at hc
  cases hc

theorem readNumber_toString (n : Int) (offset : Nat) {rest : List Char} (hrest : Ended rest)
    (hlength : (Nat.toDigits 10 n.natAbs).length ≤ Text.Numeral.maxDigits) :
    ∃ offset', readNumber ⟨offset, (toString n).toList ++ rest⟩ =
      .ok (.integer n, ⟨offset', rest⟩) := by
  have hwhole := wholeDigits_toDigits n.natAbs hrest
  have hvalue := natOfDigits_toDigits n.natAbs
  have hminus := head?_toDigits_ne_minus n.natAbs
  rw [toList_toString_int]
  generalize hdigits : Nat.toDigits 10 n.natAbs = digits at *
  have hne : digits ≠ [] := hdigits ▸ Nat.toDigits_ne_nil
  have hnotLong := not_lt.mpr hlength
  by_cases hnegative : n < 0
  · refine ⟨offset + 1 + digits.length, ?_⟩
    simp [readNumber, hnegative, Cursor.advance, hwhole, hne, fractionDigits_of_ended hrest,
      exponentPart_of_ended hrest, hnotLong, hvalue,
      abs_of_neg hnegative]
  · refine ⟨offset + digits.length, ?_⟩
    simp [readNumber, hnegative, Cursor.advance, hwhole, hne, fractionDigits_of_ended hrest,
      exponentPart_of_ended hrest, hnotLong, hvalue, hminus,
      abs_of_nonneg (not_lt.mp hnegative)]

end Json

end MonkeyLang
