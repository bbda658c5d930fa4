import Mathlib.Tactic
import MonkeyLang.Proofs.Token.Scanning

/-!
# Scanning texts joined by a semicolon

A text is *closed* if its quotes come in pairs, so that every string in it ends in it. Behind a
closed text a semicolon is a token of its own, because no token of the text can go on with it: words
and numbers do not contain a semicolon, and `=` and `!` only go on with `=`. So the tokens of a
closed text, a semicolon and another text are those of the one, the semicolon and those of the
other.
-/

set_option autoImplicit false

namespace MonkeyLang

/-! ### Closed texts -/

/-- Every string of the text is closed: the quotes come in pairs. -/
def Closed (text : List Char) : Prop :=
  Even (text.count '"')

instance : DecidablePred Closed :=
  fun text ↦ inferInstanceAs (Decidable (Even (text.count '"')))

/-- What may stand behind a text: nothing, or a semicolon and more. -/
def AtJoint (after : List Char) : Prop :=
  ∀ c ∈ after.head?, c = ';'

namespace AtJoint

variable {text after : List Char}

theorem append_head? (hafter : AtJoint after) (hne : text.head? ≠ some '=') :
    (text ++ after).head? ≠ some '=' := by
  cases text with
  | cons c text => exact hne
  | nil =>
    intro heq
    cases hafter '=' heq

/-- A run of characters that a semicolon is not among ends before the joint. -/
theorem takeWhile_append (hafter : AtJoint after) {p : Char → Bool} (hp : p ';' = false) :
    (text ++ after).takeWhile p = text.takeWhile p := by
  induction text with
  | nil =>
    cases after with
    | nil => rfl
    | cons c after =>
      obtain rfl := hafter c rfl
      rw [List.nil_append, List.takeWhile_cons_of_neg (by rw [hp]; exact Bool.false_ne_true)]
      rfl
  | cons c text ih =>
    by_cases hc : p c
    · rw [List.cons_append, List.takeWhile_cons_of_pos hc, List.takeWhile_cons_of_pos hc, ih]
    · rw [List.cons_append, List.takeWhile_cons_of_neg hc, List.takeWhile_cons_of_neg hc]

end AtJoint

theorem Closed.of_append {first second : List Char} (h : Closed (first ++ second))
    (hfirst : first.count '"' = 0) : Closed second := by
  rw [Closed, List.count_append, hfirst, Nat.zero_add] at h
  exact h

theorem Token.kind_ofWord_ne_end (word : String) : (Token.ofWord word).kind ≠ .endOfInput := by
  rw [Token.ofWord]
  cases hkeyword : Kind.ofKeyword? word with
  | none => exact Kind.noConfusion
  | some kind =>
    rintro rfl
    cases (Kind.text_of_ofKeyword? hkeyword).1

namespace Scanner

variable {alphabet : Alphabet} {c : Char} {text : List Char}

/-- The text of a symbol stands in front, and no `=` that would go on with it. -/
theorem exists_symbol_text {found : Kind × Nat} (h : symbol? (c :: text) = some found) :
    ∃ (kind : Kind) (own rest : List Char), kind.isSymbol ∧ text = own ++ rest ∧
      c :: own = kind.text.toList ∧
      (kind = .assign ∨ kind = .bang → rest.head? ≠ some '=') := by
  unfold symbol? at h
  split at h
  · rename_i rest heq
    obtain ⟨rfl, rfl⟩ := List.cons.inj heq
    exact ⟨.eq, ['='], rest, rfl, rfl, rfl, by simp⟩
  · rename_i rest heq
    obtain ⟨rfl, rfl⟩ := List.cons.inj heq
    exact ⟨.notEq, ['='], rest, rfl, rfl, rfl, by simp⟩
  · rename_i hlonger heq
    obtain ⟨rfl, rfl⟩ := List.cons.inj heq
    refine ⟨.assign, [], text, rfl, rfl, rfl, fun _ hhead ↦ ?_⟩
    obtain ⟨rest, rfl⟩ := List.head?_eq_some_iff.mp hhead
    exact hlonger rest rfl
  · rename_i hlonger heq
    obtain ⟨rfl, rfl⟩ := List.cons.inj heq
    refine ⟨.bang, [], text, rfl, rfl, rfl, fun _ hhead ↦ ?_⟩
    obtain ⟨rest, rfl⟩ := List.head?_eq_some_iff.mp hhead
    exact hlonger rest rfl
  · rename_i heq
    obtain ⟨rfl, rfl⟩ := List.cons.inj heq
    obtain ⟨kind, hkind, -⟩ := Option.map_eq_some_iff.mp h
    refine ⟨kind, [], text, ?_⟩
    unfold Kind.ofSymbol? at hkind
    split at hkind
    all_goals first
      | (obtain rfl := Option.some.inj hkind; exact ⟨rfl, rfl, rfl, by simp⟩)
      | cases hkind
  · cases h

/-- Whether a symbol starts here depends on the first character only. -/
theorem symbol?_eq_none_of_head (h : symbol? (c :: text) = none) (other : List Char) :
    symbol? (c :: other) = none := by
  have hfirst : c ≠ '=' ∧ c ≠ '!' := by
    constructor
    all_goals
      rintro rfl
      rcases text with _ | ⟨d, text⟩
      · cases h
      · by_cases hd : d = '='
        · subst hd
          cases h
        · simp [symbol?, hd] at h
  simpa [symbol?, hfirst] using h

/-- A run of characters among which are no quote and no semicolon, as words and numbers are. -/
theorem takeWhile_joint {p : Char → Bool} (hfirst : p c) (hquote : p '"' = false)
    (hsemicolon : p ';' = false) (hclosed : Closed (c :: text)) :
    Closed (text.dropWhile p) ∧ ∀ after, AtJoint after →
      (c :: (text.takeWhile p ++ (text.dropWhile p ++ after))).takeWhile p =
        c :: text.takeWhile p := by
  constructor
  · have hsplit : Closed ((c :: text.takeWhile p) ++ text.dropWhile p) := by
      rwa [List.cons_append, List.takeWhile_append_dropWhile]
    refine hsplit.of_append (List.count_eq_zero.mpr fun hmem ↦ ?_)
    rcases List.mem_cons.mp hmem with rfl | hmem
    · rw [hquote] at hfirst
      cases hfirst
    · have hp := List.mem_takeWhile_imp hmem
      rw [hquote] at hp
      cases hp
  · intro after hafter
    rw [← List.append_assoc, List.takeWhile_append_dropWhile, List.takeWhile_cons_of_pos hfirst,
      hafter.takeWhile_append hsemicolon]

/-- The first token of a text whose strings are closed does not reach behind the text, and does not
depend on what stands there. -/
theorem exists_first_token (hseparated : alphabet.Separated) (hclosed : Closed (c :: text)) :
    ∃ token own rest, text = own ++ rest ∧ token.kind ≠ .endOfInput ∧ Closed rest ∧
      ∀ after, AtJoint after → ∀ position,
        tokenAt alphabet ⟨position, c :: (own ++ (rest ++ after))⟩ c = (token, own.length + 1) := by
  cases hsymbol : symbol? (c :: text) with
  | some found =>
    obtain ⟨kind, own, rest, hkind, rfl, hown, hrest⟩ := exists_symbol_text hsymbol
    rw [← List.cons_append, hown] at hclosed
    refine ⟨kind.token, own, rest, rfl, ?_, hclosed.of_append ?_, fun after hafter position ↦ ?_⟩
    · cases kind <;> first | decide | cases hkind
    · cases kind <;> decide
    · have hfound := symbol?_text hkind fun h ↦ hafter.append_head? (hrest h)
      have hliteral : String.ofList (c :: own) = kind.text := by
        rw [hown, String.ofList_toList]
      rw [← hown, List.cons_append] at hfound
      simp only [tokenAt, hfound, List.length_cons, List.take_succ_cons, List.take_left, hliteral,
        Kind.token]
  | none =>
    have hnone := symbol?_eq_none_of_head hsymbol
    have hsemicolon := hseparated.mark ';' (by decide)
    have hmark := hseparated.mark '"' (by decide)
    by_cases hquote : c = '"'
    · subst hquote
      have hmem : '"' ∈ text := by
        refine List.count_pos_iff.mp (Nat.pos_of_ne_zero fun hzero ↦ ?_)
        rw [Closed, List.count_cons_self, hzero] at hclosed
        exact absurd hclosed (by decide)
      obtain ⟨inner, rest, rfl, hinner⟩ := List.eq_append_cons_of_mem hmem
      have hrun (after : List Char) :
          (inner ++ '"' :: (rest ++ after)).takeWhile (· ≠ '"') = inner := by
        refine takeWhile_run (fun d hd ↦ decide_eq_true fun heq ↦ hinner (heq ▸ hd)) ?_
        rintro d ⟨⟩
        rfl
      refine ⟨⟨.string, .ofList inner⟩, inner ++ ['"'], rest, by simp, Kind.noConfusion, ?_,
        fun after hafter position ↦ ?_⟩
      · rw [Closed, List.count_cons_self, List.count_append, List.count_cons_self,
          List.count_eq_zero.mpr hinner, Nat.even_iff] at hclosed
        rw [Closed, Nat.even_iff]
        omega
      · simp only [tokenAt, hnone, if_true, run, advance, List.drop_one, List.tail_cons,
          List.append_assoc, List.singleton_append, hrun, List.length_append,
          List.length_singleton]
    by_cases hword : alphabet.isWordChar c
    · obtain ⟨hrest, hrun⟩ := takeWhile_joint hword hmark.1 hsemicolon.1 hclosed
      refine ⟨.ofWord (.ofList (c :: text.takeWhile alphabet.isWordChar)), _, _,
        List.takeWhile_append_dropWhile.symm, Token.kind_ofWord_ne_end _, hrest,
        fun after hafter position ↦ ?_⟩
      simp only [tokenAt, hnone, if_neg hquote, if_pos hword, run, hrun after hafter,
        List.length_cons]
    by_cases hdigit : alphabet.isDigit c
    · obtain ⟨hrest, hrun⟩ := takeWhile_joint hdigit hmark.2.1 hsemicolon.2.1 hclosed
      refine ⟨⟨.integer, .ofList (c :: text.takeWhile alphabet.isDigit)⟩, _, _,
        List.takeWhile_append_dropWhile.symm, Kind.noConfusion, hrest,
        fun after hafter position ↦ ?_⟩
      simp only [tokenAt, hnone, if_neg hquote, if_neg hword, if_pos hdigit, run,
        hrun after hafter, List.length_cons]
    · refine ⟨⟨.illegal, c.toString⟩, [], text, rfl, Kind.noConfusion, ?_,
        fun after hafter position ↦ ?_⟩
      · rw [← List.singleton_append] at hclosed
        exact hclosed.of_append (by simp [hquote])
      · simp only [tokenAt, hnone, if_neg hquote, if_neg hword, if_neg hdigit, List.length_nil]

end Scanner

namespace Alphabet

/-- The tokens of a text are the same wherever it stands. -/
theorem scans_tokens (alphabet : Alphabet) (text : List Char) :
    alphabet.Scans text (Scanner.tokens alphabet ⟨0, text⟩) := by
  intro position
  induction hlength : text.length using Nat.strong_induction_on generalizing text position with
  | _ length ih =>
    have hcurrent (place : Nat) :
        (Scanner.skipBlanks alphabet ⟨place, text⟩).current? =
          (text.drop (text.takeWhile alphabet.isBlank).length).head? :=
      rfl
    cases hrest : text.drop (text.takeWhile alphabet.isBlank).length with
    | nil =>
      rw [hrest] at hcurrent
      rw [Scanner.tokens_of_none (hcurrent position), Scanner.tokens_of_none (hcurrent 0)]
    | cons c rest =>
      rw [hrest] at hcurrent
      have hnext (place : Nat) : ∃ after, Scanner.next alphabet ⟨place, text⟩ =
          ((Scanner.tokenAt alphabet ⟨0, c :: rest⟩ c).1,
            ⟨after, (c :: rest).drop (Scanner.tokenAt alphabet ⟨0, c :: rest⟩ c).2⟩) := by
        have hskip : Scanner.skipBlanks alphabet ⟨place, text⟩ =
            ⟨place + (text.takeWhile alphabet.isBlank).length, c :: rest⟩ := by
          rw [← hrest]
          rfl
        refine ⟨place + (text.takeWhile alphabet.isBlank).length +
          (Scanner.tokenAt alphabet ⟨0, c :: rest⟩ c).2, ?_⟩
        rw [Scanner.next, hskip]
        rfl
      obtain ⟨after, hafter⟩ := hnext position
      obtain ⟨after', hafter'⟩ := hnext 0
      have hshorter := Scanner.length_rest_next_lt alphabet ⟨0, text⟩ (hcurrent 0)
      rw [Scanner.tokens_of_some (hcurrent position), Scanner.tokens_of_some (hcurrent 0), hafter,
        hafter']
      rw [hafter', hlength] at hshorter
      exact congrArg _ ((ih _ hshorter _ after rfl).trans (ih _ hshorter _ after' rfl).symm)

/-- A text whose strings are closed, and a semicolon behind it: the tokens are those of the text,
the semicolon, and those of what follows. -/
theorem exists_scans_joined {alphabet : Alphabet} (hseparated : alphabet.Separated)
    (text : List Char) (hclosed : Closed text) :
    ∃ tokens : List Token, (∀ token ∈ tokens, token.kind ≠ .endOfInput) ∧
      alphabet.Scans text (tokens ++ [.endOfInput]) ∧
      ∀ {after : List Char} {others : List Token}, alphabet.Scans after others →
        alphabet.Scans (text ++ ';' :: after) (tokens ++ Kind.semicolon.token :: others) := by
  induction hlength : text.length using Nat.strong_induction_on generalizing text with
  | _ length ih =>
    cases text with
    | nil =>
      refine ⟨[], List.forall_mem_nil _, scans_nil alphabet, fun hafter ↦ ?_⟩
      have hsymbol : Kind.semicolon.isSymbol := rfl
      exact hafter.symbol hseparated hsymbol (by simp)
    | cons c text =>
      rw [List.length_cons] at hlength
      by_cases hblank : alphabet.isBlank c
      · have hquote : c ≠ '"' := by
          rintro rfl
          rw [(hseparated.mark '"' (by decide)).2.2] at hblank
          cases hblank
        rw [Closed, List.count_cons_of_ne hquote] at hclosed
        obtain ⟨tokens, hendless, htext, hjoined⟩ := ih text.length (by omega) text hclosed rfl
        exact ⟨tokens, hendless, htext.blank hblank, fun hafter ↦ (hjoined hafter).blank hblank⟩
      · obtain ⟨token, own, rest, rfl, hkind, hrest, htoken⟩ :=
          Scanner.exists_first_token hseparated hclosed
        rw [List.length_append] at hlength
        obtain ⟨tokens, hendless, htext, hjoined⟩ := ih rest.length (by omega) rest hrest rfl
        have hblank' : alphabet.isBlank c = false := Bool.eq_false_iff.mpr hblank
        refine ⟨token :: tokens, List.forall_mem_cons.mpr ⟨hkind, hendless⟩, ?_, fun hafter ↦ ?_⟩
        · refine htext.cons hblank' fun position ↦ ?_
          have hfirst := htoken [] nofun position
          rwa [List.append_nil] at hfirst
        · rw [List.cons_append, List.append_assoc]
          refine (hjoined hafter).cons hblank' (htoken _ ?_)
          rintro d ⟨⟩
          rfl

end Alphabet

/-- The tokens of a text whose strings are closed, a semicolon, and another text. -/
theorem exists_tokenize_joined (first second : String) (hclosed : Closed first.toList) :
    ∃ tokens : List Token, (∀ token ∈ tokens, token.kind ≠ .endOfInput) ∧
      tokenize first = tokens ++ [.endOfInput] ∧
      tokenize (first ++ ";" ++ second) = tokens ++ Kind.semicolon.token :: tokenize second := by
  obtain ⟨tokens, hendless, hfirst, hjoined⟩ :=
    Alphabet.exists_scans_joined Alphabet.unicode_separated first.toList hclosed
  refine ⟨tokens, hendless, hfirst 0, ?_⟩
  have htext : (first ++ ";" ++ second).toList = first.toList ++ ';' :: second.toList := by
    rw [String.toList_append, String.toList_append, List.append_assoc]
    rfl
  rw [tokenize, Scanner.ofSource, htext]
  exact hjoined (Alphabet.unicode.scans_tokens second.toList) 0

end MonkeyLang
