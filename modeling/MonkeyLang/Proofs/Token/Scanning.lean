import Mathlib.Data.List.TakeWhile
import Mathlib.Tactic
import MonkeyLang.Token.Scanner

/-!
# Scanning written tokens

A scanner reads a token back from its text if what stands behind the text does not go on with the
token: a word must not be followed by a character of words, a number not by a digit, and `=` and `!`
not by `=`. `Alphabet.Scans` says which tokens a text is scanned as, and the lemmas about it put a
blank or the text of one more token in front.

For this the letters, digits and blanks of an alphabet have to be apart from each other and from the
symbols (`Alphabet.Separated`), as those of `Alphabet.unicode` are. Conversely every token that the
scanner gives has a text of the form that belongs to its kind (`Token.Lexed`).
-/

set_option autoImplicit false

namespace MonkeyLang

/-! ### Texts of kinds -/

/-- The text of a kind whose tokens all have the same one. -/
def Kind.text : Kind → String
  | .assign => "="
  | .plus => "+"
  | .minus => "-"
  | .bang => "!"
  | .asterisk => "*"
  | .slash => "/"
  | .lt => "<"
  | .gt => ">"
  | .eq => "=="
  | .notEq => "!="
  | .comma => ","
  | .colon => ":"
  | .semicolon => ";"
  | .lparen => "("
  | .rparen => ")"
  | .lbrace => "\x7b"
  | .rbrace => "\x7d"
  | .lbracket => "["
  | .rbracket => "]"
  | .functionWord => "fn"
  | .letWord => "let"
  | .trueWord => "true"
  | .falseWord => "false"
  | .ifWord => "if"
  | .elseWord => "else"
  | .returnWord => "return"
  | .illegal | .endOfInput | .identifier | .integer | .string => ""

def Kind.isSymbol : Kind → Bool
  | .assign | .plus | .minus | .bang | .asterisk | .slash | .lt | .gt | .eq | .notEq | .comma
  | .colon | .semicolon | .lparen | .rparen | .lbrace | .rbrace | .lbracket | .rbracket => true
  | _ => false

def Kind.isKeyword : Kind → Bool
  | .functionWord | .letWord | .trueWord | .falseWord | .ifWord | .elseWord | .returnWord => true
  | _ => false

/-- The token of a kind whose tokens all have the same text. -/
def Kind.token (kind : Kind) : Token :=
  ⟨kind, kind.text⟩

namespace Alphabet

/-- The characters that symbols start with, and the quote. -/
def marks : List Char :=
  ['=', '!', '+', '-', '*', '/', '<', '>', ',', ':', ';', '(', ')', '\x7b', '\x7d', '[', ']', '"']

/-- Letters, digits, blanks and marks are apart from each other. -/
structure Separated (alphabet : Alphabet) : Prop where
  word_blank : ∀ {c : Char}, alphabet.isWordChar c → alphabet.isBlank c = false
  digit_word : ∀ {c : Char}, alphabet.isDigit c → alphabet.isWordChar c = false
  digit_blank : ∀ {c : Char}, alphabet.isDigit c → alphabet.isBlank c = false
  mark : ∀ c ∈ marks, alphabet.isWordChar c = false ∧ alphabet.isDigit c = false ∧
    alphabet.isBlank c = false

end Alphabet

/-! ### Ranges of code points -/

namespace Text

/-- Whether two sets have no code point in common, seen by walking along both at once. -/
def Ranges.apart : Nat → Ranges → Ranges → Bool
  | 0, _, _ => false
  | _ + 1, [], _ => true
  | _ + 1, _, [] => true
  | bound + 1, (low, high) :: rest, (low', high') :: rest' =>
    if high < low' then apart bound rest ((low', high') :: rest')
    else if high' < low then apart bound ((low, high) :: rest) rest'
    else false

theorem Ranges.not_contains_of_apart {bound : Nat} {first second : Ranges}
    (hapart : apart bound first second) {n : Nat} (hfirst : first.contains n) :
    second.contains n = false := by
  fun_induction apart bound first second with
  | case1 => cases hapart
  | case2 => cases hfirst
  | case3 => rfl
  | case4 bound low high rest low' high' rest' hlt ih =>
    rw [Ranges.contains, Bool.and_eq_true, Bool.or_eq_true, decide_eq_true_eq,
      decide_eq_true_eq] at hfirst
    rcases hfirst.2 with hhigh | hrest
    · rw [Ranges.contains, decide_eq_false (by omega), Bool.false_and]
    · exact ih hapart hrest
  | case5 bound low high rest low' high' rest' hge hlt ih =>
    have hlow : low ≤ n := by
      rw [Ranges.contains, Bool.and_eq_true, decide_eq_true_eq] at hfirst
      exact hfirst.1
    rw [Ranges.contains, ih hapart hfirst, Bool.or_false,
      decide_eq_false (p := n ≤ high') (by omega), Bool.and_false]
  | case6 => cases hapart

end Text

namespace Alphabet

theorem unicode_separated : unicode.Separated := by
  have hletterBlank : Text.Ranges.apart 2000 Text.letterRanges Text.blankRanges := by
    decide +kernel
  have hdigitLetter : Text.Ranges.apart 2000 Text.digitRanges Text.letterRanges := by
    decide +kernel
  have hdigitBlank : Text.Ranges.apart 2000 Text.digitRanges Text.blankRanges := by
    decide +kernel
  have hunderscore : unicode.isDigit '_' = false ∧ unicode.isBlank '_' = false := by
    decide +kernel
  have hmarks : marks.all fun c ↦
      !unicode.isWordChar c && !unicode.isDigit c && !unicode.isBlank c := by
    decide +kernel
  refine ⟨fun {c} hword ↦ ?_, fun {c} hdigit ↦ ?_, fun {c} hdigit ↦ ?_, fun c hc ↦ ?_⟩
  · rcases Bool.or_eq_true_iff.mp hword with hletter | hword
    · exact Text.Ranges.not_contains_of_apart hletterBlank hletter
    · rw [of_decide_eq_true hword]
      exact hunderscore.2
  · rw [isWordChar, Bool.or_eq_false_iff]
    refine ⟨Text.Ranges.not_contains_of_apart hdigitLetter hdigit, ?_⟩
    rw [decide_eq_false_iff_not]
    rintro rfl
    rw [hunderscore.1] at hdigit
    cases hdigit
  · exact Text.Ranges.not_contains_of_apart hdigitBlank hdigit
  · have hmark := List.all_eq_true.mp hmarks c hc
    simpa [and_assoc] using hmark

end Alphabet

/-! ### One token -/

namespace Scanner

variable {alphabet : Alphabet}

theorem tokens_of_none {scanner : Scanner} (h : (scanner.skipBlanks alphabet).current? = none) :
    scanner.tokens alphabet = [.endOfInput] := by
  rw [tokens]
  split
  · rfl
  · rename_i heq
    rw [h] at heq
    cases heq

theorem tokens_of_some {scanner : Scanner} {c : Char}
    (h : (scanner.skipBlanks alphabet).current? = some c) :
    scanner.tokens alphabet =
      (scanner.next alphabet).1 :: (scanner.next alphabet).2.tokens alphabet := by
  rw [tokens]
  split
  · rename_i heq
    rw [h] at heq
    cases heq
  · rfl

theorem skipBlanks_of_blank {position : Nat} {c : Char} {text : List Char}
    (hblank : alphabet.isBlank c) :
    skipBlanks alphabet ⟨position, c :: text⟩ = skipBlanks alphabet ⟨position + 1, text⟩ := by
  rw [skipBlanks, skipBlanks, run, run, List.takeWhile_cons_of_pos hblank, List.length_cons]
  rw [advance, advance, List.drop_succ_cons, Nat.add_right_comm, Nat.add_assoc]

theorem skipBlanks_of_not_blank (position : Nat) {c : Char} (text : List Char)
    (hblank : alphabet.isBlank c = false) :
    skipBlanks alphabet ⟨position, c :: text⟩ = ⟨position, c :: text⟩ := by
  rw [skipBlanks, run, List.takeWhile_cons_of_neg (by rw [hblank]; exact Bool.false_ne_true)]
  rfl

/-- The tokens depend on what is left behind the blanks only. -/
theorem tokens_congr {first second : Scanner}
    (h : first.skipBlanks alphabet = second.skipBlanks alphabet) :
    first.tokens alphabet = second.tokens alphabet := by
  cases hcurrent : (second.skipBlanks alphabet).current? with
  | none => rw [tokens_of_none hcurrent, tokens_of_none (by rw [h, hcurrent])]
  | some c =>
    have hnext : first.next alphabet = second.next alphabet := by
      rw [next, next, h]
    rw [tokens_of_some hcurrent, tokens_of_some (by rw [h, hcurrent]), hnext]

/-- The character that a symbol starts with is a mark. -/
theorem mem_marks_of_symbol? {c : Char} {text : List Char} {found : Kind × Nat}
    (h : symbol? (c :: text) = some found) : c ∈ Alphabet.marks := by
  unfold symbol? at h
  split at h
  · rename_i heq
    rw [(List.cons.inj heq).1]
    decide
  · rename_i heq
    rw [(List.cons.inj heq).1]
    decide
  · rename_i heq
    rw [(List.cons.inj heq).1]
    decide
  · rename_i heq
    rw [(List.cons.inj heq).1]
    decide
  · rename_i heq
    rw [(List.cons.inj heq).1]
    obtain ⟨kind, hkind, -⟩ := Option.map_eq_some_iff.mp h
    unfold Kind.ofSymbol? at hkind
    split at hkind
    all_goals first | decide | cases hkind
  · cases h

theorem symbol?_eq_none {c : Char} {text : List Char} (hmark : c ∉ Alphabet.marks) :
    symbol? (c :: text) = none := by
  cases h : symbol? (c :: text) with
  | none => rfl
  | some found => exact absurd (mem_marks_of_symbol? h) hmark

/-- A symbol is found at its text, unless it is `=` or `!` and another `=` follows. -/
theorem symbol?_text {kind : Kind} (hsymbol : kind.isSymbol) {after : List Char}
    (hafter : kind = .assign ∨ kind = .bang → after.head? ≠ some '=') :
    symbol? (kind.text.toList ++ after) = some (kind, kind.text.toList.length) := by
  cases kind with
  | assign =>
    have hne := hafter (.inl rfl)
    cases after with
    | nil => rfl
    | cons c rest =>
      have hc : c ≠ '=' := fun heq ↦ hne (by rw [heq]; rfl)
      simp [Kind.text, symbol?, hc]
  | bang =>
    have hne := hafter (.inr rfl)
    cases after with
    | nil => rfl
    | cons c rest =>
      have hc : c ≠ '=' := fun heq ↦ hne (by rw [heq]; rfl)
      simp [Kind.text, symbol?, hc]
  | plus | minus | asterisk | slash | lt | gt | eq | notEq | comma | colon | semicolon | lparen
  | rparen | lbrace | rbrace | lbracket | rbracket => rfl
  | illegal | endOfInput | identifier | integer | string | functionWord | letWord | trueWord
  | falseWord | ifWord | elseWord | returnWord => cases hsymbol

theorem takeWhile_run {p : Char → Bool} {run after : List Char} (hrun : ∀ c ∈ run, p c)
    (hafter : ∀ c ∈ after.head?, p c = false) : (run ++ after).takeWhile p = run := by
  rw [List.takeWhile_append_of_pos hrun]
  cases after with
  | nil => rw [List.takeWhile_nil, List.append_nil]
  | cons c rest =>
    rw [List.takeWhile_cons_of_neg (by rw [hafter c rfl]; exact Bool.false_ne_true),
      List.append_nil]

end Scanner

/-! ### Texts and their tokens -/

namespace Alphabet

/-- The text is scanned as the tokens, wherever it stands in the source. -/
def Scans (alphabet : Alphabet) (text : List Char) (tokens : List Token) : Prop :=
  ∀ position, Scanner.tokens alphabet ⟨position, text⟩ = tokens

/-- The text does not go on with a word, a number or an operator. -/
def Ends (alphabet : Alphabet) (text : List Char) : Prop :=
  ∀ c ∈ text.head?, alphabet.isWordChar c = false ∧ alphabet.isDigit c = false ∧ c ≠ '='

variable {alphabet : Alphabet} {after : List Char} {tokens : List Token}

theorem scans_nil (alphabet : Alphabet) : alphabet.Scans [] [.endOfInput] :=
  fun _ ↦ Scanner.tokens_of_none rfl

theorem Scans.blank (h : alphabet.Scans after tokens) {c : Char} (hblank : alphabet.isBlank c) :
    alphabet.Scans (c :: after) tokens := by
  intro position
  rw [← h (position + 1)]
  exact Scanner.tokens_congr (Scanner.skipBlanks_of_blank hblank)

/-- Puts a token in front that starts with a character other than a blank. -/
theorem Scans.cons (h : alphabet.Scans after tokens) {token : Token} {c : Char}
    {text : List Char} (hblank : alphabet.isBlank c = false)
    (htoken : ∀ position, Scanner.tokenAt alphabet ⟨position, c :: (text ++ after)⟩ c =
      (token, text.length + 1)) :
    alphabet.Scans (c :: (text ++ after)) (token :: tokens) := by
  intro position
  have hskip := Scanner.skipBlanks_of_not_blank position (text ++ after) hblank
  have hcurrent : (Scanner.skipBlanks alphabet ⟨position, c :: (text ++ after)⟩).current? =
      some c := by
    rw [hskip]
    rfl
  have hnext : Scanner.next alphabet ⟨position, c :: (text ++ after)⟩ =
      (token, ⟨position + (text.length + 1), after⟩) := by
    rw [hskip] at hcurrent
    simp only [Scanner.next, hskip, hcurrent, htoken, Scanner.advance, List.drop_succ_cons,
      List.drop_left]
  rw [Scanner.tokens_of_some hcurrent, hnext]
  exact congrArg _ (h _)

theorem Scans.symbol (h : alphabet.Scans after tokens) (hseparated : alphabet.Separated)
    {kind : Kind} (hsymbol : kind.isSymbol)
    (hafter : kind = .assign ∨ kind = .bang → after.head? ≠ some '=') :
    alphabet.Scans (kind.text.toList ++ after) (kind.token :: tokens) := by
  have hfound := Scanner.symbol?_text hsymbol hafter
  have hpos := Scanner.symbol?_pos hfound
  have hliteral : String.ofList kind.text.toList = kind.text := String.ofList_toList
  rw [Kind.token]
  cases htext : kind.text.toList with
  | nil => simp [htext] at hpos
  | cons c text =>
    rw [htext] at hfound hliteral
    have hmark := Scanner.mem_marks_of_symbol? hfound
    refine h.cons (hseparated.mark c hmark).2.2 fun position ↦ ?_
    rw [List.cons_append] at hfound
    simp only [Scanner.tokenAt, hfound, List.length_cons, List.take_succ_cons, List.take_left,
      hliteral]

theorem Scans.word (h : alphabet.Scans after tokens) (hseparated : alphabet.Separated)
    {word : String} (hne : word.toList ≠ []) (hword : ∀ c ∈ word.toList, alphabet.isWordChar c)
    (hafter : alphabet.Ends after) :
    alphabet.Scans (word.toList ++ after) (.ofWord word :: tokens) := by
  have hrun := Scanner.takeWhile_run hword fun c hc ↦ (hafter c hc).1
  have hliteral : String.ofList word.toList = word := String.ofList_toList
  cases htext : word.toList with
  | nil => exact absurd htext hne
  | cons c text =>
    rw [htext] at hword hrun hliteral
    have hfirst := hword c (.head _)
    have hmark : c ∉ marks := fun hmem ↦ by
      rw [(hseparated.mark c hmem).1] at hfirst
      cases hfirst
    have hquote : c ≠ '"' := by
      rintro rfl
      exact hmark (by decide)
    refine h.cons (hseparated.word_blank hfirst) fun position ↦ ?_
    rw [List.cons_append] at hrun
    simp only [Scanner.tokenAt, Scanner.symbol?_eq_none hmark, if_neg hquote, if_pos hfirst,
      Scanner.run, hrun, hliteral, List.length_cons]

theorem Scans.keyword (h : alphabet.Scans after tokens) (hseparated : alphabet.Separated)
    {kind : Kind} (hkeyword : kind.isKeyword)
    (hletters : ∀ c ∈ kind.text.toList, alphabet.isWordChar c) (hafter : alphabet.Ends after) :
    alphabet.Scans (kind.text.toList ++ after) (kind.token :: tokens) := by
  have htoken : kind.token = .ofWord kind.text := by
    cases kind <;> first | rfl | cases hkeyword
  have hne : kind.text.toList ≠ [] := by
    cases kind <;> first | decide | cases hkeyword
  rw [htoken]
  exact h.word hseparated hne hletters hafter

theorem Scans.number (h : alphabet.Scans after tokens) (hseparated : alphabet.Separated)
    {digits : String} (hne : digits.toList ≠ []) (hdigits : ∀ c ∈ digits.toList, alphabet.isDigit c)
    (hafter : alphabet.Ends after) :
    alphabet.Scans (digits.toList ++ after) (⟨.integer, digits⟩ :: tokens) := by
  have hrun := Scanner.takeWhile_run hdigits fun c hc ↦ (hafter c hc).2.1
  have hliteral : String.ofList digits.toList = digits := String.ofList_toList
  cases htext : digits.toList with
  | nil => exact absurd htext hne
  | cons c text =>
    rw [htext] at hdigits hrun hliteral
    have hfirst := hdigits c (.head _)
    have hmark : c ∉ marks := fun hmem ↦ by
      rw [(hseparated.mark c hmem).2.1] at hfirst
      cases hfirst
    have hquote : c ≠ '"' := by
      rintro rfl
      exact hmark (by decide)
    have hword : ¬ alphabet.isWordChar c := by
      rw [hseparated.digit_word hfirst]
      exact Bool.false_ne_true
    refine h.cons (hseparated.digit_blank hfirst) fun position ↦ ?_
    rw [List.cons_append] at hrun
    simp only [Scanner.tokenAt, Scanner.symbol?_eq_none hmark, if_neg hquote, if_neg hword,
      if_pos hfirst, Scanner.run, hrun, hliteral, List.length_cons]

theorem Scans.string (h : alphabet.Scans after tokens) (hseparated : alphabet.Separated)
    {value : String} (hvalue : '"' ∉ value.toList) :
    alphabet.Scans ('"' :: (value.toList ++ '"' :: after)) (⟨.string, value⟩ :: tokens) := by
  have hinside : ∀ c ∈ value.toList, decide (c ≠ '"') := fun c hc ↦
    decide_eq_true fun heq ↦ hvalue (heq ▸ hc)
  have hrun : (value.toList ++ '"' :: after).takeWhile (· ≠ '"') = value.toList := by
    refine Scanner.takeWhile_run hinside ?_
    rintro c ⟨⟩
    rfl
  have hblank := (hseparated.mark '"' (by decide)).2.2
  have hscans : alphabet.Scans ('"' :: ((value.toList ++ ['"']) ++ after))
      (⟨.string, value⟩ :: tokens) := by
    refine h.cons hblank fun position ↦ ?_
    have hsymbol : Scanner.symbol? ('"' :: (value.toList ++ '"' :: after)) = none := rfl
    rw [List.append_assoc, List.singleton_append]
    simp only [Scanner.tokenAt, hsymbol, if_true, Scanner.run, Scanner.advance, List.drop_one,
      List.tail_cons, hrun, String.ofList_toList, List.length_append, List.length_singleton]
  rwa [List.append_assoc] at hscans

end Alphabet

/-! ### Tokens that come from a scanner -/

/-- The text is one that a token of its kind can have. Nothing is said of illegal tokens, of which
no tree is made. -/
def Token.Lexed (alphabet : Alphabet) (token : Token) : Prop :=
  match token.kind with
  | .identifier => token.literal.toList ≠ [] ∧ (∀ c ∈ token.literal.toList, alphabet.isWordChar c) ∧
      Kind.ofKeyword? token.literal = none
  | .integer => token.literal.toList ≠ [] ∧ ∀ c ∈ token.literal.toList, alphabet.isDigit c
  | .string => '"' ∉ token.literal.toList
  | .illegal => True
  | kind => token.literal = kind.text

theorem Kind.text_of_ofKeyword? {word : String} {kind : Kind}
    (h : Kind.ofKeyword? word = some kind) : kind.isKeyword ∧ word = kind.text := by
  unfold Kind.ofKeyword? at h
  split at h
  all_goals first | (obtain rfl := Option.some.inj h; exact ⟨rfl, rfl⟩) | cases h

theorem Token.lexed_of_literal {alphabet : Alphabet} {kind : Kind}
    (hkind : kind.isSymbol ∨ kind.isKeyword) {literal : String} (hliteral : literal = kind.text) :
    Token.Lexed alphabet ⟨kind, literal⟩ := by
  subst hliteral
  cases kind <;> first | rfl | simp [Kind.isSymbol, Kind.isKeyword] at hkind

/-- The token of a kind with a fixed text is known from its kind. -/
theorem Token.eq_of_lexed {alphabet : Alphabet} {token : Token} {kind : Kind}
    (hlexed : token.Lexed alphabet) (hkind : token.kind = kind)
    (hfixed : kind.isSymbol ∨ kind.isKeyword) : token = kind.token := by
  obtain ⟨found, literal⟩ := token
  obtain rfl : found = kind := hkind
  rw [Kind.token]
  congr 1
  cases found <;> first | exact hlexed | simp [Kind.isSymbol, Kind.isKeyword] at hfixed

theorem Token.lexed_ofWord {alphabet : Alphabet} {word : String} (hne : word.toList ≠ [])
    (hword : ∀ c ∈ word.toList, alphabet.isWordChar c) : (Token.ofWord word).Lexed alphabet := by
  rw [Token.ofWord]
  cases hkeyword : Kind.ofKeyword? word with
  | none => exact ⟨hne, hword, hkeyword⟩
  | some kind =>
    obtain ⟨hkind, htext⟩ := Kind.text_of_ofKeyword? hkeyword
    exact lexed_of_literal (.inr hkind) htext

namespace Scanner

variable {alphabet : Alphabet}

/-- The characters that a symbol takes are its text. -/
theorem text_of_symbol? {text : List Char} {kind : Kind} {count : Nat}
    (h : symbol? text = some (kind, count)) :
    kind.isSymbol ∧ String.ofList (text.take count) = kind.text := by
  unfold symbol? at h
  split at h
  · obtain ⟨rfl, rfl⟩ := Prod.mk.inj (Option.some.inj h)
    exact ⟨rfl, rfl⟩
  · obtain ⟨rfl, rfl⟩ := Prod.mk.inj (Option.some.inj h)
    exact ⟨rfl, rfl⟩
  · obtain ⟨rfl, rfl⟩ := Prod.mk.inj (Option.some.inj h)
    exact ⟨rfl, rfl⟩
  · obtain ⟨rfl, rfl⟩ := Prod.mk.inj (Option.some.inj h)
    exact ⟨rfl, rfl⟩
  · obtain ⟨found, hfound, heq⟩ := Option.map_eq_some_iff.mp h
    obtain ⟨rfl, rfl⟩ := Prod.mk.inj heq
    unfold Kind.ofSymbol? at hfound
    split at hfound
    all_goals first | (obtain rfl := Option.some.inj hfound; exact ⟨rfl, rfl⟩) | cases hfound
  · cases h

theorem tokenAt_lexed {scanner : Scanner} {c : Char} (hcurrent : scanner.current? = some c) :
    (scanner.tokenAt alphabet c).1.Lexed alphabet := by
  obtain ⟨position, text⟩ := scanner
  obtain ⟨rest, rfl⟩ := List.head?_eq_some_iff.mp hcurrent
  unfold tokenAt
  split
  · rename_i kind count hfound
    obtain ⟨hsymbol, htext⟩ := text_of_symbol? hfound
    exact Token.lexed_of_literal (.inl hsymbol) htext
  split_ifs with hquote hword hdigit
  · show '"' ∉ (String.ofList _).toList
    rw [String.toList_ofList]
    intro hmem
    exact absurd (List.mem_takeWhile_imp hmem) (by simp)
  · refine Token.lexed_ofWord ?_ fun d hd ↦ ?_
    · rw [String.toList_ofList, run, List.takeWhile_cons_of_pos hword]
      exact List.cons_ne_nil _ _
    · rw [String.toList_ofList] at hd
      exact List.mem_takeWhile_imp hd
  · refine ⟨?_, fun d hd ↦ ?_⟩
    · show (String.ofList _).toList ≠ []
      rw [String.toList_ofList, run, List.takeWhile_cons_of_pos hdigit]
      exact List.cons_ne_nil _ _
    · change d ∈ (String.ofList _).toList at hd
      rw [String.toList_ofList] at hd
      exact List.mem_takeWhile_imp hd
  · trivial

theorem tokens_lexed (alphabet : Alphabet) (scanner : Scanner) :
    ∀ token ∈ scanner.tokens alphabet, token.Lexed alphabet := by
  fun_induction tokens alphabet scanner with
  | case1 scanner hcurrent =>
    intro token hmem
    obtain rfl := List.mem_singleton.mp hmem
    rfl
  | case2 scanner c hcurrent hshorter step ih =>
    intro token hmem
    rcases List.mem_cons.mp hmem with rfl | hmem
    · have hfirst : step.1 = ((scanner.skipBlanks alphabet).tokenAt alphabet c).1 := by
        simp only [step, next, hcurrent]
      rw [hfirst]
      exact tokenAt_lexed hcurrent
    · exact ih token hmem

end Scanner

end MonkeyLang
