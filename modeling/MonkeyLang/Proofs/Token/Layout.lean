import Mathlib.Tactic
import MonkeyLang.Proofs.Token.Joints

/-!
# Sources laid out as tokens

A source is its tokens, each in the text that belongs to it, with blanks in front, between and
behind. `Alphabet.Lays` says this of a list of tokens and a text, and also that no token goes on
with what stands behind it: a word not with a character of words, a number not with a digit, and `=`
and `!` not with `=`. The only token that may lack a part of its text is a string at the very end of
the source, which needs no closing quote.

Every source is laid out as the tokens that the scanner gives, whatever counts as a letter, a digit
or a blank. Conversely tokens that are written with at least one blank between them are scanned as
just these tokens. For this the classes of characters have to be apart, and the tokens have to be
ones that a scanner can give at all (`Token.Producible`).
-/

set_option autoImplicit false

namespace MonkeyLang

/-! ### Tokens in a source -/

/-- The words that are no identifiers. -/
def Kind.keywords : List String :=
  ["fn", "let", "true", "false", "if", "else", "return"]

/-- Identifiers and keywords. -/
def Kind.isWord (kind : Kind) : Bool :=
  kind = .identifier || kind.isKeyword

theorem Kind.ne_of_isWord {kind other : Kind} (hkind : kind.isWord)
    (hother : other.isWord = false) : kind ≠ other := by
  rintro rfl
  cases hother.symm.trans hkind

/-- No token but an illegal one starts with the character, and it is no blank either. -/
def Alphabet.StartsNothing (alphabet : Alphabet) (c : Char) : Prop :=
  c ∉ marks ∧ alphabet.isWordChar c = false ∧ alphabet.isDigit c = false ∧
    alphabet.isBlank c = false

namespace Token

/-- The text of a token in a source. A string stands between quotes. -/
def written (token : Token) : List Char :=
  if token.kind = .string then '"' :: (token.literal.toList ++ ['"']) else token.literal.toList

/-- A token that a scanner can give before the end of a source. -/
structure Producible (alphabet : Alphabet) (token : Token) : Prop where
  not_end : token.kind ≠ .endOfInput
  lexed : token.Lexed alphabet
  keyword : token.kind.isKeyword → ∀ c ∈ token.literal.toList, alphabet.isWordChar c
  illegal : token.kind = .illegal →
    ∃ c, token.literal = c.toString ∧ alphabet.StartsNothing c

/-- The token has this text in front of what stands behind it, and does not go on with that. -/
structure Stands (alphabet : Alphabet) (token : Token) (text after : List Char) : Prop where
  producible : token.Producible alphabet
  text_eq : text = token.written ∨
    token.kind = .string ∧ text = '"' :: token.literal.toList ∧ after = []
  word : token.kind.isWord → ∀ c ∈ after.head?, alphabet.isWordChar c = false
  number : token.kind = .integer → ∀ c ∈ after.head?, alphabet.isDigit c = false
  operator : token.kind = .assign ∨ token.kind = .bang → after.head? ≠ some '='

end Token

/-- The text is the tokens in this order, with blanks in front of each and behind the last. -/
inductive Alphabet.Lays (alphabet : Alphabet) : List Token → List Char → Prop
  | blanks {text : List Char} (hblank : ∀ c ∈ text, alphabet.isBlank c) : Lays alphabet [] text
  | token {blanks text after : List Char} {token : Token} {tokens : List Token}
    (hblank : ∀ c ∈ blanks, alphabet.isBlank c) (htoken : token.Stands alphabet text after)
    (hafter : Lays alphabet tokens after) :
    Lays alphabet (token :: tokens) (blanks ++ (text ++ after))

namespace Token

variable {alphabet : Alphabet}

theorem written_of_ne (token : Token) (hkind : token.kind ≠ .string) :
    token.written = token.literal.toList :=
  if_neg hkind

theorem written_illegal (c : Char) : written ⟨.illegal, c.toString⟩ = [c] := by
  simp [written]

theorem stands_symbol (kind : Kind) (hsymbol : kind.isSymbol) (after : List Char)
    (hafter : kind = .assign ∨ kind = .bang → after.head? ≠ some '=') :
    kind.token.Stands alphabet kind.text.toList after := by
  have hwritten : kind ≠ .string → kind.text.toList = kind.token.written :=
    fun hkind ↦ (written_of_ne kind.token hkind).symm
  refine ⟨⟨?_, lexed_of_literal (.inl hsymbol) rfl, ?_, ?_⟩, .inl (hwritten ?_), ?_, ?_, hafter⟩
  all_goals
    intro hkind
    cases kind with
    | assign | plus | minus | bang | asterisk | slash | lt | gt | eq | notEq | comma | colon
    | semicolon | lparen | rparen | lbrace | rbrace | lbracket | rbracket => cases hkind
    | _ => cases hsymbol

/-- A word is a keyword exactly if it is among the seven. -/
theorem isWord_ofWord (word : String) :
    (ofWord word).kind.isWord ∧ ((ofWord word).kind.isKeyword ↔ word ∈ Kind.keywords) := by
  rw [ofWord]
  cases hkeyword : Kind.ofKeyword? word with
  | none =>
    refine ⟨rfl, iff_of_false Bool.false_ne_true fun hmem ↦ ?_⟩
    simp only [Kind.keywords, List.mem_cons, List.not_mem_nil, or_false] at hmem
    rcases hmem with rfl | rfl | rfl | rfl | rfl | rfl | rfl <;> cases hkeyword
  | some kind =>
    obtain ⟨hkind, rfl⟩ := Kind.text_of_ofKeyword? hkeyword
    cases kind with
    | functionWord | letWord | trueWord | falseWord | ifWord | elseWord | returnWord =>
      exact ⟨rfl, iff_of_true rfl (by decide)⟩
    | _ => cases hkind

theorem Lexed.eq_ofWord {token : Token} (h : token.Lexed alphabet) (hword : token.kind.isWord) :
    token = .ofWord token.literal := by
  obtain ⟨kind, literal⟩ := token
  cases kind with
  | identifier =>
    obtain ⟨-, -, hkeyword⟩ := h
    rw [ofWord, hkeyword]
    rfl
  | functionWord | letWord | trueWord | falseWord | ifWord | elseWord | returnWord =>
    rw [eq_of_lexed h rfl (.inr rfl)]
    rfl
  | _ => cases hword

/-- A word is made of characters of words. -/
theorem Producible.isWordChar {token : Token} (h : token.Producible alphabet)
    (hword : token.kind.isWord) :
    token.literal.toList ≠ [] ∧ ∀ c ∈ token.literal.toList, alphabet.isWordChar c := by
  obtain ⟨kind, literal⟩ := token
  cases kind with
  | identifier => exact ⟨h.lexed.1, h.lexed.2.1⟩
  | functionWord | letWord | trueWord | falseWord | ifWord | elseWord | returnWord =>
    refine ⟨?_, h.keyword rfl⟩
    rw [eq_of_lexed h.lexed rfl (.inr rfl)]
    dsimp only
    decide
  | _ => cases hword

theorem ofWord_producible (word : String) (hne : word.toList ≠ [])
    (hword : ∀ c ∈ word.toList, alphabet.isWordChar c) : (ofWord word).Producible alphabet where
  not_end := Kind.ne_of_isWord (isWord_ofWord word).1 rfl
  lexed := lexed_ofWord hne hword
  keyword _ := hword
  illegal hkind := absurd hkind (Kind.ne_of_isWord (isWord_ofWord word).1 rfl)

end Token

/-! ### Every source is laid out as its tokens -/

namespace Scanner

variable {alphabet : Alphabet} {c : Char} {text : List Char}

theorem drop_of_append {whole own after : List Char} (h : whole = own ++ after) :
    whole.drop own.length = after := by
  rw [h, List.drop_left]

theorem not_of_head?_dropWhile (p : Char → Bool) (text : List Char) :
    ∀ d ∈ (text.dropWhile p).head?, p d = false := by
  intro d hd
  have hhead := List.head?_dropWhile_not p text
  rwa [Option.mem_def.mp hd] at hhead

theorem stands_word (hword : alphabet.isWordChar c) :
    (Token.ofWord (.ofList (c :: text.takeWhile alphabet.isWordChar))).Stands alphabet
      (c :: text.takeWhile alphabet.isWordChar) (text.dropWhile alphabet.isWordChar) := by
  have hrun : ∀ d ∈ c :: text.takeWhile alphabet.isWordChar, alphabet.isWordChar d :=
    List.forall_mem_cons.mpr ⟨hword, fun _ hd ↦ List.mem_takeWhile_imp hd⟩
  have hkind := (Token.isWord_ofWord (.ofList (c :: text.takeWhile alphabet.isWordChar))).1
  refine ⟨Token.ofWord_producible _ ?_ ?_, .inl ?_, fun _ ↦ not_of_head?_dropWhile _ _, ?_, ?_⟩
  · rw [String.toList_ofList]
    exact List.cons_ne_nil _ _
  · rwa [String.toList_ofList]
  · rw [Token.written_of_ne _ (Kind.ne_of_isWord hkind rfl)]
    exact String.toList_ofList.symm
  · exact fun hnumber ↦ absurd hnumber (Kind.ne_of_isWord hkind rfl)
  · rintro (hassign | hbang)
    · exact absurd hassign (Kind.ne_of_isWord hkind rfl)
    · exact absurd hbang (Kind.ne_of_isWord hkind rfl)

theorem stands_number (hdigit : alphabet.isDigit c) :
    Token.Stands alphabet ⟨.integer, .ofList (c :: text.takeWhile alphabet.isDigit)⟩
      (c :: text.takeWhile alphabet.isDigit) (text.dropWhile alphabet.isDigit) := by
  have hrun : ∀ d ∈ c :: text.takeWhile alphabet.isDigit, alphabet.isDigit d :=
    List.forall_mem_cons.mpr ⟨hdigit, fun _ hd ↦ List.mem_takeWhile_imp hd⟩
  refine ⟨⟨nofun, ⟨?_, ?_⟩, nofun, nofun⟩, .inl ?_, nofun, fun _ ↦ not_of_head?_dropWhile _ _,
    by simp⟩
  · rw [String.toList_ofList]
    exact List.cons_ne_nil _ _
  · rwa [String.toList_ofList]
  · exact String.toList_ofList.symm

theorem stands_illegal (hc : alphabet.StartsNothing c) :
    Token.Stands alphabet ⟨.illegal, c.toString⟩ [c] text :=
  ⟨⟨nofun, trivial, nofun, fun _ ↦ ⟨c, rfl, hc⟩⟩, .inl (Token.written_illegal c).symm, nofun,
    nofun, by simp⟩

/-- A string ends at the next quote, or at the end of the source if there is none. -/
theorem exists_stands_string (alphabet : Alphabet) (text : List Char) :
    ∃ own after, '"' :: text = own ++ after ∧
      ('"' :: text).drop ((text.takeWhile (· ≠ '"')).length + 2) = after ∧
        Token.Stands alphabet ⟨.string, .ofList (text.takeWhile (· ≠ '"'))⟩ own after := by
  have hproducible :
      Token.Producible alphabet ⟨.string, .ofList (text.takeWhile (· ≠ '"'))⟩ := by
    refine ⟨nofun, ?_, nofun, nofun⟩
    show '"' ∉ (String.ofList _).toList
    rw [String.toList_ofList]
    exact fun hmem ↦ absurd (List.mem_takeWhile_imp hmem) (by simp)
  have hsplit := List.takeWhile_append_dropWhile (p := (· ≠ '"')) (l := text)
  cases hrest : text.dropWhile (· ≠ '"') with
  | nil =>
    rw [hrest, List.append_nil] at hsplit
    refine ⟨'"' :: text, [], (List.append_nil _).symm, ?_, hproducible,
      .inr ⟨rfl, ?_, rfl⟩, nofun, nofun, by simp⟩
    · rw [hsplit, List.drop_eq_nil_iff]
      simp
    · rw [String.toList_ofList, hsplit]
  | cons d after =>
    obtain rfl : d = '"' := by
      have hhead := not_of_head?_dropWhile (· ≠ '"') text d (by rw [hrest]; rfl)
      simpa using hhead
    rw [hrest] at hsplit
    generalize text.takeWhile (· ≠ '"') = inner at hsplit hproducible ⊢
    subst hsplit
    refine ⟨'"' :: (inner ++ ['"']), after, by simp, by simp, hproducible, .inl ?_, nofun, nofun,
      by simp⟩
    show _ = '"' :: ((String.ofList inner).toList ++ ['"'])
    rw [String.toList_ofList]

/-- The token at a character that is no blank has a text in front of what is left behind it. -/
theorem exists_stands (hblank : alphabet.isBlank c = false) (text : List Char) (position : Nat) :
    ∃ token count own after, tokenAt alphabet ⟨position, c :: text⟩ c = (token, count) ∧
      c :: text = own ++ after ∧ (c :: text).drop count = after ∧
        token.Stands alphabet own after := by
  cases hsymbol : symbol? (c :: text) with
  | some found =>
    obtain ⟨kind, own, after, hkind, rfl, hown, hafter⟩ := exists_symbol_text hsymbol
    have hfound := symbol?_text hkind hafter
    have hliteral : String.ofList (c :: own) = kind.text := by
      rw [hown, String.ofList_toList]
    have hstands : kind.token.Stands alphabet (c :: own) after := by
      rw [hown]
      exact Token.stands_symbol kind hkind after hafter
    rw [← hown, List.cons_append] at hfound
    refine ⟨kind.token, (c :: own).length, c :: own, after, ?_, rfl, drop_of_append rfl, hstands⟩
    simp only [tokenAt, hfound, List.length_cons, List.take_succ_cons, List.take_left, hliteral,
      Kind.token]
  | none =>
    have hmark (hquote : c ≠ '"') : c ∉ Alphabet.marks := fun hmem ↦ by
      have hmarks : Alphabet.marks.all fun d ↦ (symbol? [d]).isSome || d = '"' := by decide
      have hc := List.all_eq_true.mp hmarks c hmem
      rw [symbol?_eq_none_of_head hsymbol []] at hc
      exact hquote (of_decide_eq_true hc)
    have hrun (p : Char → Bool) : c :: text = (c :: text.takeWhile p) ++ text.dropWhile p := by
      rw [List.cons_append, List.takeWhile_append_dropWhile]
    by_cases hquote : c = '"'
    · subst hquote
      obtain ⟨own, after, hown, hafter, hstands⟩ := exists_stands_string alphabet text
      refine ⟨_, _, own, after, ?_, hown, hafter, hstands⟩
      simp only [tokenAt, hsymbol, if_true, run, advance, List.drop_one, List.tail_cons]
    by_cases hword : alphabet.isWordChar c
    · refine ⟨_, _, _, _, ?_, hrun _, drop_of_append (hrun _), stands_word hword⟩
      simp only [tokenAt, hsymbol, if_neg hquote, if_pos hword, run,
        List.takeWhile_cons_of_pos hword, List.length_cons]
    by_cases hdigit : alphabet.isDigit c
    · refine ⟨_, _, _, _, ?_, hrun _, drop_of_append (hrun _), stands_number hdigit⟩
      simp only [tokenAt, hsymbol, if_neg hquote, if_neg hword, if_pos hdigit, run,
        List.takeWhile_cons_of_pos hdigit, List.length_cons]
    · refine ⟨⟨.illegal, c.toString⟩, 1, [c], text, ?_, rfl, rfl, ?_⟩
      · simp only [tokenAt, hsymbol, if_neg hquote, if_neg hword, if_neg hdigit]
      · exact stands_illegal ⟨hmark hquote, Bool.eq_false_iff.mpr hword,
          Bool.eq_false_iff.mpr hdigit, hblank⟩

theorem rest_skipBlanks (alphabet : Alphabet) (scanner : Scanner) :
    (scanner.skipBlanks alphabet).rest = scanner.rest.dropWhile alphabet.isBlank :=
  drop_of_append List.takeWhile_append_dropWhile.symm

/-- What is left of a source begins with the blanks that are skipped. -/
theorem rest_eq_append (alphabet : Alphabet) (scanner : Scanner) :
    scanner.rest = scanner.rest.takeWhile alphabet.isBlank ++ (scanner.skipBlanks alphabet).rest ∧
      ∀ d ∈ (scanner.skipBlanks alphabet).current?, alphabet.isBlank d = false := by
  rw [current?, rest_skipBlanks]
  exact ⟨List.takeWhile_append_dropWhile.symm, not_of_head?_dropWhile _ _⟩

theorem next_eq {scanner : Scanner} {token : Token} {count : Nat}
    (hcurrent : (scanner.skipBlanks alphabet).current? = some c)
    (htoken : tokenAt alphabet (scanner.skipBlanks alphabet) c = (token, count)) :
    scanner.next alphabet = (token, (scanner.skipBlanks alphabet).advance count) := by
  simp only [next, hcurrent, htoken]

theorem exists_lays (alphabet : Alphabet) (scanner : Scanner) :
    ∃ tokens, scanner.tokens alphabet = tokens ++ [.endOfInput] ∧
      alphabet.Lays tokens scanner.rest := by
  have hblanks (text : List Char) : ∀ d ∈ text.takeWhile alphabet.isBlank, alphabet.isBlank d :=
    fun _ hd ↦ List.mem_takeWhile_imp hd
  fun_induction tokens alphabet scanner with
  | case1 scanner hcurrent =>
    have hrest := (rest_eq_append alphabet scanner).1
    rw [List.head?_eq_none_iff.mp hcurrent, List.append_nil] at hrest
    refine ⟨[], rfl, .blanks ?_⟩
    rw [hrest]
    exact hblanks _
  | case2 scanner c hcurrent hshorter step ih =>
    obtain ⟨hrest, hblank⟩ := rest_eq_append alphabet scanner
    obtain ⟨text, htext⟩ := List.head?_eq_some_iff.mp hcurrent
    obtain ⟨token, count, own, after, htoken, hown, hafter, hstands⟩ :=
      exists_stands (hblank c hcurrent) text (scanner.skipBlanks alphabet).position
    rw [← htext] at htoken hown hafter
    have hstep : step = (token, (scanner.skipBlanks alphabet).advance count) :=
      next_eq hcurrent htoken
    obtain ⟨tokens, htokens, hlays⟩ := ih
    have hleft : step.2.rest = after := by
      rw [hstep]
      exact hafter
    refine ⟨token :: tokens, ?_, ?_⟩
    · rw [htokens, hstep, List.cons_append]
    · rw [hrest, hown]
      exact .token (hblanks _) hstands (hleft ▸ hlays)

end Scanner

/-- Whatever counts as a letter, a digit or a blank, a source is laid out as the tokens that are
scanned before its end, and a word among them is a keyword exactly if it is one of the seven. -/
theorem tokenization_loses_nothing (alphabet : Alphabet) (source : String) :
    ∃ tokens : List Token,
      (Scanner.ofSource source).tokens alphabet = tokens ++ [.endOfInput] ∧
        alphabet.Lays tokens source.toList ∧
          ∀ token ∈ tokens, token.kind.isWord →
            (token.kind.isKeyword ↔ token.literal ∈ Kind.keywords) := by
  obtain ⟨tokens, htokens, hlays⟩ := Scanner.exists_lays alphabet (Scanner.ofSource source)
  refine ⟨tokens, htokens, hlays, fun token hmem hword ↦ ?_⟩
  have hlexed := Scanner.tokens_lexed alphabet (Scanner.ofSource source) token
    (htokens ▸ List.mem_append_left _ hmem)
  have hkeyword := (Token.isWord_ofWord token.literal).2
  rwa [← hlexed.eq_ofWord hword] at hkeyword

/-! ### Tokens with blanks between them -/

namespace Alphabet

variable {alphabet : Alphabet} {after : List Char} {tokens : List Token}

theorem Scans.blanks (h : alphabet.Scans after tokens) {blanks : List Char}
    (hblanks : ∀ c ∈ blanks, alphabet.isBlank c) : alphabet.Scans (blanks ++ after) tokens := by
  induction blanks with
  | nil => exact h
  | cons c blanks ih =>
    obtain ⟨hc, hrest⟩ := List.forall_mem_cons.mp hblanks
    exact (ih hrest).blank hc

theorem Scans.illegal (h : alphabet.Scans after tokens) {c : Char} (hc : alphabet.StartsNothing c) :
    alphabet.Scans (c :: after) (⟨.illegal, c.toString⟩ :: tokens) := by
  obtain ⟨hmark, hword, hdigit, hblank⟩ := hc
  have hquote : c ≠ '"' := by
    rintro rfl
    exact hmark (by decide)
  show alphabet.Scans (c :: ([] ++ after)) _
  refine h.cons hblank fun position ↦ ?_
  simp [Scanner.tokenAt, Scanner.symbol?_eq_none hmark, hquote, hword, hdigit]

theorem Separated.ends_of_blank (hseparated : alphabet.Separated) {c : Char}
    (hblank : alphabet.isBlank c) : alphabet.Ends (c :: after) := by
  rintro d ⟨⟩
  refine ⟨?_, ?_, ?_⟩
  · exact Bool.eq_false_iff.mpr fun hword ↦ by
      cases (hseparated.word_blank hword).symm.trans hblank
  · exact Bool.eq_false_iff.mpr fun hdigit ↦ by
      cases (hseparated.digit_blank hdigit).symm.trans hblank
  · rintro rfl
    cases (hseparated.mark '=' (by decide)).2.2.symm.trans hblank

/-- A token in front of what does not go on with it. -/
theorem Scans.written (h : alphabet.Scans after tokens) (hseparated : alphabet.Separated)
    {token : Token} (htoken : token.Producible alphabet) (hafter : alphabet.Ends after) :
    alphabet.Scans (token.written ++ after) (token :: tokens) := by
  by_cases hword : token.kind.isWord
  · obtain ⟨hne, hchars⟩ := htoken.isWordChar hword
    have hscans := h.word hseparated hne hchars hafter
    rwa [← htoken.lexed.eq_ofWord hword, ← Token.written_of_ne _ (Kind.ne_of_isWord hword rfl)]
      at hscans
  obtain ⟨hend, hlexed, -, hillegal⟩ := htoken
  obtain ⟨kind, literal⟩ := token
  cases kind with
  | integer => exact h.number hseparated hlexed.1 hlexed.2 hafter
  | string =>
    have hscans := h.string hseparated hlexed
    rw [Token.written, if_pos rfl, List.cons_append, List.append_assoc]
    exact hscans
  | illegal =>
    obtain ⟨c, rfl, hc⟩ := hillegal rfl
    rw [Token.written_illegal]
    exact h.illegal hc
  | endOfInput => exact absurd rfl hend
  | identifier | functionWord | letWord | trueWord | falseWord | ifWord | elseWord
  | returnWord => exact absurd rfl hword
  | assign | plus | minus | bang | asterisk | slash | lt | gt | eq | notEq | comma | colon
  | semicolon | lparen | rparen | lbrace | rbrace | lbracket | rbracket =>
    rw [Token.eq_of_lexed hlexed rfl (.inl rfl)]
    exact h.symbol hseparated rfl fun _ heq ↦ (hafter '=' heq).2.2 rfl

/-- The tokens with the blanks in front of each are scanned as these tokens, if nothing but the
first stands directly behind another. -/
theorem scans_printed (hseparated : alphabet.Separated) {printed : List (List Char × Token)}
    (hblanks : ∀ entry ∈ printed, ∀ c ∈ entry.1, alphabet.isBlank c)
    (hapart : ∀ entry ∈ printed.tail, entry.1 ≠ [])
    (htokens : ∀ entry ∈ printed, entry.2.Producible alphabet) :
    alphabet.Scans (printed.flatMap fun entry ↦ entry.1 ++ entry.2.written)
      (printed.map Prod.snd ++ [.endOfInput]) := by
  induction printed with
  | nil => exact scans_nil alphabet
  | cons entry rest ih =>
    obtain ⟨hblank, hblanks⟩ := List.forall_mem_cons.mp hblanks
    obtain ⟨htoken, htokens⟩ := List.forall_mem_cons.mp htokens
    have hscans := ih hblanks (fun other hmem ↦ hapart other (List.mem_of_mem_tail hmem)) htokens
    have hends : alphabet.Ends (rest.flatMap fun entry ↦ entry.1 ++ entry.2.written) := by
      cases rest with
      | nil => exact nofun
      | cons next rest =>
        obtain ⟨blanks, token⟩ := next
        cases blanks with
        | nil => exact absurd rfl (hapart _ (.head _))
        | cons c blanks => exact hseparated.ends_of_blank (hblanks _ (.head _) c (.head _))
    rw [List.flatMap_cons, List.append_assoc]
    exact (hscans.written hseparated htoken hends).blanks hblank

end Alphabet

/-- Tokens that a scanner can give, written with blanks between them, are scanned as just these
tokens, if letters, digits, blanks and symbols are apart. -/
theorem scanning_undoes_printing (alphabet : Alphabet) (hseparated : alphabet.Separated)
    (printed : List (List Char × Token))
    (hblanks : ∀ entry ∈ printed, ∀ c ∈ entry.1, alphabet.isBlank c)
    (hapart : ∀ entry ∈ printed.tail, entry.1 ≠ [])
    (htokens : ∀ entry ∈ printed, entry.2.Producible alphabet) :
    (Scanner.ofSource (.ofList (printed.flatMap fun entry ↦ entry.1 ++ entry.2.written))).tokens
      alphabet = printed.map Prod.snd ++ [.endOfInput] := by
  rw [Scanner.ofSource, String.toList_ofList]
  exact Alphabet.scans_printed hseparated hblanks hapart htokens 0

/-- An operator in front of one that begins like it, a string with a keyword and a symbol inside, a
character that starts nothing, and digits of two scripts. -/
theorem scanning_undoes_printing_of_mixed_tokens :
    let printed : List (List Char × Token) :=
      [([], Kind.letWord.token), ([' '], ⟨.identifier, "größe_"⟩), (['\n'], Kind.assign.token),
        (['\t', ' '], Kind.eq.token), (['\u3000'], ⟨.string, "fn = \n;"⟩), ([' '], ⟨.illegal, "@"⟩),
        (['\r', '\n'], ⟨.integer, "٣7"⟩)]
    tokenize (.ofList (printed.flatMap fun entry ↦ entry.1 ++ entry.2.written)) =
      printed.map Prod.snd ++ [.endOfInput] := by
  intro printed
  have hblanks : printed.all fun entry ↦ entry.1.all Alphabet.unicode.isBlank := by decide +kernel
  have hword {word : String} (h : word.toList.all Alphabet.unicode.isWordChar)
      (hne : word.toList ≠ []) : (Token.ofWord word).Producible .unicode :=
    Token.ofWord_producible word hne (List.all_eq_true.mp h)
  have hdigits : "٣7".toList.all Alphabet.unicode.isDigit := by decide +kernel
  have htokens : ∀ entry ∈ printed, entry.2.Producible .unicode := by
    simp only [printed, List.forall_mem_cons]
    refine ⟨?_, ?_, ?_, ?_, ?_, ?_, ?_, List.forall_mem_nil _⟩
    · exact hword (show "let".toList.all _ by decide +kernel) (by decide)
    · exact hword (show "größe_".toList.all _ by decide +kernel) (by decide)
    · exact (Token.stands_symbol .assign rfl [] nofun).producible
    · exact (Token.stands_symbol .eq rfl [] nofun).producible
    · exact ⟨nofun, by show '"' ∉ _; decide, nofun, nofun⟩
    · exact ⟨nofun, trivial, nofun, fun _ ↦ ⟨'@', rfl, by decide, by decide +kernel⟩⟩
    · exact ⟨nofun, ⟨by decide, List.all_eq_true.mp hdigits⟩, nofun, nofun⟩
  exact scanning_undoes_printing .unicode Alphabet.unicode_separated printed
    (fun entry hentry ↦ List.all_eq_true.mp (List.all_eq_true.mp hblanks entry hentry)) (by decide)
    htokens

end MonkeyLang
