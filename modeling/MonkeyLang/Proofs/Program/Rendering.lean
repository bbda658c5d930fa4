import Mathlib.Tactic
import MonkeyLang.Program.Render
import MonkeyLang.Proofs.Parser.Coherence

/-!
# The tokens of a rendered tree

`Expr.tokens` and its siblings give the tokens that a rendering consists of, without a text in
between: parentheses around every operator and index, commas between items, and a semicolon behind
every statement but a last expression. The rendering of a coherent tree is scanned as these tokens.

A rendering is put together from pieces, and a piece ends where a character comes that does not go
on with it. `Alphabet.Writes` says that a piece is scanned as its tokens in front of every such
text; there is one lemma for each form of tree, and the trees are followed by mutual induction.
-/

set_option autoImplicit false

namespace MonkeyLang

/-! ### Tokens of trees -/

def Origin.token (origin : Origin) : Token :=
  ⟨origin.kind, origin.literal.display⟩

def Identifier.token (name : Identifier) : Token :=
  ⟨.identifier, name.value⟩

/-- Items with commas between them. -/
def separated (items : List (List Token)) : List Token :=
  [Kind.comma.token].intercalate items

mutual

def Expr.tokens : Expr → List Token
  | .identifier name => [name.token]
  | .integer origin _ => [origin.token]
  | .boolean origin _ => [origin.token]
  | .string _ value => [⟨.string, value⟩]
  | .unary origin _ right =>
    Kind.lparen.token :: origin.token :: (right.tokens ++ [Kind.rparen.token])
  | .binary origin left _ right =>
    Kind.lparen.token :: (left.tokens ++ origin.token :: (right.tokens ++ [Kind.rparen.token]))
  | .conditional _ condition consequence none =>
    Kind.ifWord.token :: Kind.lparen.token ::
      (condition.tokens ++ Kind.rparen.token :: consequence.tokens)
  | .conditional _ condition consequence (some alternative) =>
    Kind.ifWord.token :: Kind.lparen.token :: (condition.tokens ++ Kind.rparen.token ::
      (consequence.tokens ++ Kind.elseWord.token :: alternative.tokens))
  | .function _ parameters body =>
    Kind.functionWord.token :: Kind.lparen.token ::
      (separated (parameters.map fun name ↦ [name.token]) ++ Kind.rparen.token :: body.tokens)
  | .call _ callee arguments =>
    callee.tokens ++ Kind.lparen.token ::
      (separated (Expr.tokensEach arguments) ++ [Kind.rparen.token])
  | .array _ elements =>
    Kind.lbracket.token :: (separated (Expr.tokensEach elements) ++ [Kind.rbracket.token])
  | .index _ left place =>
    Kind.lparen.token :: (left.tokens ++ Kind.lbracket.token ::
      (place.tokens ++ [Kind.rbracket.token, Kind.rparen.token]))
  | .hash _ pairs =>
    Kind.lbrace.token :: (separated (Expr.tokensPairs pairs) ++ [Kind.rbrace.token])

def Expr.tokensEach : List Expr → List (List Token)
  | [] => []
  | expression :: rest => expression.tokens :: Expr.tokensEach rest

def Expr.tokensPairs : List (Expr × Expr) → List (List Token)
  | [] => []
  | (key, value) :: rest =>
    (key.tokens ++ Kind.colon.token :: value.tokens) :: Expr.tokensPairs rest

def Stmt.tokens : Stmt → List Token
  | .binding _ name value =>
    Kind.letWord.token :: name.token :: Kind.assign.token ::
      (value.tokens ++ [Kind.semicolon.token])
  | .returning _ value => Kind.returnWord.token :: (value.tokens ++ [Kind.semicolon.token])
  | .expression _ tree => tree.tokens
  | .block body => body.tokens

def Stmt.tokensEach : List Stmt → List (List Token)
  | [] => []
  | [last] => [last.tokens]
  | .expression _ tree :: rest => (tree.tokens ++ [Kind.semicolon.token]) :: Stmt.tokensEach rest
  | statement :: rest => statement.tokens :: Stmt.tokensEach rest

def Block.tokens : Block → List Token
  | .mk _ statements =>
    Kind.lbrace.token :: ((Stmt.tokensEach statements).flatten ++ [Kind.rbrace.token])

end

def Program.tokens (program : Program) : List Token :=
  (Stmt.tokensEach program.statements).flatten

/-- The text of a statement that another one follows. -/
def Stmt.renderClosed : Stmt → String
  | .expression _ tree => tree.render ++ ";"
  | tree => tree.render

/-- The tokens of a statement that another one follows. -/
def Stmt.tokensClosed : Stmt → List Token
  | .expression _ tree => tree.tokens ++ [Kind.semicolon.token]
  | tree => tree.tokens

theorem Stmt.renderEach_cons_cons (tree next : Stmt) (rest : List Stmt) :
    Stmt.renderEach (tree :: next :: rest) =
      tree.renderClosed :: Stmt.renderEach (next :: rest) := by
  cases tree <;> rfl

theorem Stmt.tokensEach_cons_cons (tree next : Stmt) (rest : List Stmt) :
    Stmt.tokensEach (tree :: next :: rest) =
      tree.tokensClosed :: Stmt.tokensEach (next :: rest) := by
  cases tree <;> rfl

/-! ### Pieces of text -/

/-- Whether the kind is a symbol that ends what stands in front of it and means the same whatever
stands behind it. -/
def Kind.isPunctuation : Kind → Bool
  | .comma | .colon | .semicolon | .lparen | .rparen | .lbrace | .rbrace | .lbracket
  | .rbracket => true
  | _ => false

namespace Alphabet

/-- The text is scanned as the tokens in front of every text that does not go on with it. -/
def Writes (text : String) (tokens : List Token) : Prop :=
  ∀ {after : List Char} {rest : List Token}, unicode.Ends after → unicode.Scans after rest →
    unicode.Scans (text.toList ++ after) (tokens ++ rest)

variable {after : List Char} {rest : List Token}

theorem ends_nil : unicode.Ends [] :=
  fun _ hc ↦ nomatch hc

theorem ends_space : unicode.Ends (' ' :: after) := by
  rintro other ⟨⟩
  decide +kernel

theorem ends_punctuation (kind : Kind) (hkind : kind.isPunctuation) :
    unicode.Ends (kind.text.toList ++ after) := by
  have hmark : ∀ c ∈ marks, c ≠ '=' → unicode.Ends (c :: after) := by
    rintro c hmem hne other ⟨⟩
    obtain ⟨hword, hdigit, -⟩ := unicode_separated.mark c hmem
    exact ⟨hword, hdigit, hne⟩
  cases kind with
  | comma | colon | semicolon | lparen | rparen | lbrace | rbrace | lbracket | rbracket =>
    exact hmark _ (by decide) (by decide)
  | _ => cases hkind

theorem Scans.space (h : unicode.Scans after rest) : unicode.Scans (' ' :: after) rest :=
  h.blank (by decide +kernel)

theorem Scans.punctuation (h : unicode.Scans after rest) (kind : Kind)
    (hkind : kind.isPunctuation) :
    unicode.Scans (kind.text.toList ++ after) (kind.token :: rest) := by
  have hsymbol : kind.isSymbol := by
    cases kind <;> first | rfl | cases hkind
  refine h.symbol unicode_separated hsymbol ?_
  rintro (rfl | rfl) <;> cases hkind

/-- An operator in front of a blank. -/
theorem Scans.operator (h : unicode.Scans after rest) (kind : Kind) (hsymbol : kind.isSymbol) :
    unicode.Scans (kind.text.toList ++ ' ' :: after) (kind.token :: rest) :=
  h.space.symbol unicode_separated hsymbol fun _ ↦ by simp

theorem Scans.reserved (h : unicode.Scans after rest) (kind : Kind) (hkeyword : kind.isKeyword)
    (hends : unicode.Ends after) :
    unicode.Scans (kind.text.toList ++ after) (kind.token :: rest) := by
  have hletters : kind.text.toList.all unicode.isWordChar := by
    cases kind <;> first | decide +kernel | cases hkeyword
  exact h.keyword unicode_separated hkeyword (List.all_eq_true.mp hletters) hends

theorem Writes.before {text : String} {tokens : List Token} (h : Writes text tokens) (kind : Kind)
    (hkind : kind.isPunctuation) (hscans : unicode.Scans after rest) :
    unicode.Scans (text.toList ++ (kind.text.toList ++ after)) (tokens ++ kind.token :: rest) :=
  h (ends_punctuation kind hkind) (hscans.punctuation kind hkind)

/-- Pieces with a separator between them. The separator ends the piece in front of it. -/
theorem writes_intercalate {separator : String} {between : List Token}
    (hends : ∀ after, unicode.Ends (separator.toList ++ after))
    (hscans : ∀ {after rest}, unicode.Scans after rest →
      unicode.Scans (separator.toList ++ after) (between ++ rest))
    {texts : List String} {tokens : List (List Token)} (h : List.Forall₂ Writes texts tokens) :
    Writes (separator.intercalate texts) (between.intercalate tokens) := by
  induction h with
  | nil =>
    rw [String.intercalate_nil, List.intercalate_nil]
    exact fun _ hafter ↦ hafter
  | cons hfirst hrest ih =>
    cases hrest with
    | nil =>
      rw [String.intercalate_singleton, List.intercalate_singleton]
      exact hfirst
    | cons hsecond hrest =>
      intro after rest hend hafter
      rw [String.intercalate_cons_cons, List.intercalate_cons_cons, String.toList_append,
        String.toList_append, List.append_assoc, List.append_assoc, List.append_assoc,
        List.append_assoc]
      exact hfirst (hends _) (hscans (ih hend hafter))

theorem writes_separated {texts : List String} {tokens : List (List Token)}
    (h : List.Forall₂ Writes texts tokens) :
    Writes (", ".intercalate texts) (separated tokens) := by
  refine writes_intercalate (fun after ↦ ?_) (fun {after rest} hafter ↦ ?_) h
  · exact ends_punctuation .comma rfl
  · exact hafter.space.punctuation .comma rfl

theorem intercalate_nil_eq_flatten {α : Type} (lists : List (List α)) :
    [].intercalate lists = lists.flatten := by
  induction lists with
  | nil => rfl
  | cons first rest ih => cases rest <;> simp_all

theorem writes_statements {texts : List String} {tokens : List (List Token)}
    (h : List.Forall₂ Writes texts tokens) : Writes (" ".intercalate texts) tokens.flatten := by
  rw [← intercalate_nil_eq_flatten]
  refine writes_intercalate (fun after ↦ ?_) (fun {after rest} hafter ↦ ?_) h
  · exact ends_space
  · exact hafter.space

/-! ### One lemma for each form of tree -/

theorem writes_identifier {name : Identifier} (h : name.Coherent) :
    Writes name.render [name.token] := by
  obtain ⟨-, hne, hword, hkeyword⟩ := h
  intro after rest hends hscans
  have hscans := hscans.word unicode_separated hne hword hends
  rw [Token.ofWord, hkeyword] at hscans
  exact hscans

theorem writes_names {names : List Identifier} (h : ∀ name ∈ names, name.Coherent) :
    Writes (Identifier.renderList names) (separated (names.map fun name ↦ [name.token])) := by
  refine writes_separated ?_
  rw [List.forall₂_map_left_iff, List.forall₂_map_right_iff, List.forall₂_same]
  exact fun name hmem ↦ writes_identifier (h name hmem)

theorem writes_integer {literal : String} (h : Token.Lexed .unicode ⟨.integer, literal⟩) :
    Writes literal [⟨.integer, literal⟩] :=
  fun hends hscans ↦ hscans.number unicode_separated h.1 h.2 hends

theorem writes_keyword (kind : Kind) (hkeyword : kind.isKeyword) : Writes kind.text [kind.token] :=
  fun hends hscans ↦ hscans.reserved kind hkeyword hends

theorem writes_string {value : String} (h : '"' ∉ value.toList) :
    Writes ("\"" ++ value ++ "\"") [⟨.string, value⟩] := by
  intro after rest _ hscans
  have hwhole := hscans.string unicode_separated h
  simpa using hwhole

variable {left right inner condition consequence alternative : String}
  {first second third : List Token}

/-- The operand must not start with `=`, which would make another operator of `!`. -/
theorem writes_unary {kind : Kind} (hkind : kind = .bang ∨ kind = .minus)
    (hright : Writes right second) (hhead : ∃ c, right.toList.head? = some c ∧ c ≠ '=') :
    Writes ("(" ++ kind.text ++ right ++ ")")
      (Kind.lparen.token :: kind.token :: (second ++ [Kind.rparen.token])) := by
  intro after rest _ hscans
  have hsymbol : kind.isSymbol := by
    rcases hkind with rfl | rfl <;> rfl
  -- What stands behind the operator matters to `!` only.
  have hoperator := (hright.before .rparen rfl hscans).symbol unicode_separated hsymbol fun _ ↦ by
    obtain ⟨c, heq, hne⟩ := hhead
    rw [List.head?_append, heq, Option.some_or]
    exact fun hsome ↦ hne (Option.some.inj hsome)
  have hwhole := hoperator.punctuation .lparen rfl
  simpa [Kind.text] using hwhole

theorem writes_binary {kind : Kind} (hkind : kind.isSymbol) (hleft : Writes left first)
    (hright : Writes right second) :
    Writes ("(" ++ left ++ " " ++ kind.text ++ " " ++ right ++ ")")
      (Kind.lparen.token :: (first ++ kind.token :: (second ++ [Kind.rparen.token]))) := by
  intro after rest _ hscans
  have hoperator := (hright.before .rparen rfl hscans).operator kind hkind
  have hwhole := (hleft ends_space hoperator.space).punctuation .lparen rfl
  simpa [Kind.text] using hwhole

/-- The word `if` and a condition in its parentheses, in front of a scanned text. -/
theorem scans_condition (hcondition : Writes condition first) (hscans : unicode.Scans after rest) :
    unicode.Scans ("if (".toList ++ (condition.toList ++ (") ".toList ++ after)))
      (Kind.ifWord.token :: Kind.lparen.token :: (first ++ Kind.rparen.token :: rest)) := by
  have hopened := (hcondition.before .rparen rfl hscans.space).punctuation .lparen rfl
  have hwhole := hopened.space.reserved .ifWord rfl ends_space
  simpa [Kind.text] using hwhole

theorem writes_conditional (hcondition : Writes condition first)
    (hconsequence : Writes consequence second) :
    Writes ("if (" ++ condition ++ ") " ++ consequence)
      (Kind.ifWord.token :: Kind.lparen.token :: (first ++ Kind.rparen.token :: second)) := by
  intro after rest hends hscans
  have hwhole := scans_condition hcondition (hconsequence hends hscans)
  simpa using hwhole

theorem writes_conditionalElse (hcondition : Writes condition first)
    (hconsequence : Writes consequence second) (halternative : Writes alternative third) :
    Writes ("if (" ++ condition ++ ") " ++ consequence ++ " else " ++ alternative)
      (Kind.ifWord.token :: Kind.lparen.token :: (first ++ Kind.rparen.token ::
        (second ++ Kind.elseWord.token :: third))) := by
  intro after rest hends hscans
  have helse := (halternative hends hscans).space.reserved .elseWord rfl ends_space
  have hwhole := scans_condition hcondition (hconsequence ends_space helse.space)
  simpa [Kind.text] using hwhole

theorem writes_function (hinner : Writes inner first) (hright : Writes right second) :
    Writes ("fn" ++ "(" ++ inner ++ ") " ++ right)
      (Kind.functionWord.token :: Kind.lparen.token :: (first ++ Kind.rparen.token :: second)) := by
  intro after rest hends hscans
  have hnames := hinner.before .rparen rfl (hright hends hscans).space
  have hopened := hnames.punctuation .lparen rfl
  have hwhole := hopened.reserved .functionWord rfl (ends_punctuation _ rfl)
  simpa [Kind.text] using hwhole

theorem writes_call (hleft : Writes left first) (hinner : Writes inner second) :
    Writes (left ++ "(" ++ inner ++ ")")
      (first ++ Kind.lparen.token :: (second ++ [Kind.rparen.token])) := by
  intro after rest _ hscans
  have hwhole := hleft.before .lparen rfl (hinner.before .rparen rfl hscans)
  simpa [Kind.text] using hwhole

theorem writes_index (hleft : Writes left first) (hinner : Writes inner second) :
    Writes ("(" ++ left ++ "[" ++ inner ++ "])")
      (Kind.lparen.token :: (first ++ Kind.lbracket.token ::
        (second ++ [Kind.rbracket.token, Kind.rparen.token]))) := by
  intro after rest _ hscans
  have hplace := hinner.before .rbracket rfl (hscans.punctuation .rparen rfl)
  have hwhole := (hleft.before .lbracket rfl hplace).punctuation .lparen rfl
  simpa [Kind.text] using hwhole

theorem writes_array (hinner : Writes inner first) :
    Writes ("[" ++ inner ++ "]") (Kind.lbracket.token :: (first ++ [Kind.rbracket.token])) := by
  intro after rest _ hscans
  have hwhole := (hinner.before .rbracket rfl hscans).punctuation .lbracket rfl
  simpa [Kind.text] using hwhole

theorem writes_hash (hinner : Writes inner first) :
    Writes ("\x7b" ++ inner ++ "\x7d") (Kind.lbrace.token :: (first ++ [Kind.rbrace.token])) := by
  intro after rest _ hscans
  have hwhole := (hinner.before .rbrace rfl hscans).punctuation .lbrace rfl
  simpa [Kind.text] using hwhole

theorem writes_pair (hleft : Writes left first) (hright : Writes right second) :
    Writes (left ++ ": " ++ right) (first ++ Kind.colon.token :: second) := by
  intro after rest hends hscans
  have hwhole := hleft.before .colon rfl (hright hends hscans).space
  simpa [Kind.text] using hwhole

theorem writes_binding {name : Identifier} (hname : name.Coherent) (hright : Writes right first) :
    Writes ("let" ++ " " ++ name.render ++ " = " ++ right ++ ";")
      (Kind.letWord.token :: name.token :: Kind.assign.token ::
        (first ++ [Kind.semicolon.token])) := by
  intro after rest _ hscans
  have hassign := (hright.before .semicolon rfl hscans).operator .assign rfl
  have hnamed := writes_identifier hname ends_space hassign.space
  have hwhole := hnamed.space.reserved .letWord rfl ends_space
  simpa [Kind.text] using hwhole

theorem writes_returning (hright : Writes right first) :
    Writes ("return" ++ " " ++ right ++ ";")
      (Kind.returnWord.token :: (first ++ [Kind.semicolon.token])) := by
  intro after rest _ hscans
  have hwhole := (hright.before .semicolon rfl hscans).space.reserved .returnWord rfl ends_space
  simpa [Kind.text] using hwhole

theorem writes_closed {tree : Stmt} (h : Writes tree.render tree.tokens) :
    Writes tree.renderClosed tree.tokensClosed := by
  cases tree with
  | expression origin tree =>
    intro after rest _ hscans
    have hwhole := h.before .semicolon rfl hscans
    simpa [Stmt.renderClosed, Stmt.tokensClosed, Stmt.render, Stmt.tokens, Kind.text] using hwhole
  | binding _ _ _ | returning _ _ | block _ => exact h

theorem writes_emptyBlock : Writes "\x7b \x7d" [Kind.lbrace.token, Kind.rbrace.token] := by
  intro after rest _ hscans
  have hwhole := (hscans.punctuation .rbrace rfl).space.punctuation .lbrace rfl
  simpa [Kind.text] using hwhole

theorem writes_block (hinner : Writes inner first) :
    Writes ("\x7b " ++ inner ++ " \x7d") (Kind.lbrace.token :: (first ++ [Kind.rbrace.token])) := by
  intro after rest _ hscans
  have hclosed := hinner ends_space (hscans.punctuation .rbrace rfl).space
  have hwhole := hclosed.space.punctuation .lbrace rfl
  simpa [Kind.text] using hwhole

end Alphabet

/-! ### Whole trees -/

open Alphabet

/-- No rendering of an expression starts with `=`. Only that of a call starts with another
rendering. -/
theorem Expr.exists_head_render : (tree : Expr) → tree.Coherent →
    ∃ c, tree.render.toList.head? = some c ∧ c ≠ '='
  | .identifier name, h => by
    obtain ⟨-, hne, hword, -⟩ := h
    refine ⟨_, List.head?_eq_some_head hne, fun heq ↦ ?_⟩
    have hfirst := hword _ (List.head_mem hne)
    rw [heq] at hfirst
    exact absurd hfirst (by decide +kernel)
  | .integer origin value, h => by
    obtain ⟨literal, rfl, ⟨hne, hdigits⟩, -⟩ := h
    refine ⟨_, List.head?_eq_some_head hne, fun heq ↦ ?_⟩
    have hfirst := hdigits _ (List.head_mem hne)
    rw [heq] at hfirst
    exact absurd hfirst (by decide +kernel)
  | .boolean origin true, h => by
    obtain rfl := h
    exact ⟨'t', rfl, by decide⟩
  | .boolean origin false, h => by
    obtain rfl := h
    exact ⟨'f', rfl, by decide⟩
  | .function origin parameters body, h => by
    obtain ⟨rfl, -, -⟩ := h
    have hword : Kind.functionWord.origin.literal.display = "fn" := rfl
    exact ⟨'f', by simp [Expr.render, hword], by decide⟩
  | .call _ callee arguments, h => by
    obtain ⟨c, heq, hne⟩ := callee.exists_head_render h.2.1
    exact ⟨c, by simp [Expr.render, heq], hne⟩
  | .conditional _ condition consequence none, _
  | .conditional _ condition consequence (some alternative), _ =>
    ⟨'i', by simp [Expr.render], by decide⟩
  | .string _ value, _ => ⟨'"', by simp [Expr.render], by decide⟩
  | .unary _ _ _, _ | .binary _ _ _ _, _ | .index _ _ _, _ =>
    ⟨'(', by simp [Expr.render], by decide⟩
  | .array _ elements, _ => ⟨'[', by simp [Expr.render], by decide⟩
  | .hash _ pairs, _ => ⟨'\x7b', by simp [Expr.render], by decide⟩

mutual

theorem Expr.writes : (tree : Expr) → tree.Coherent → Writes tree.render tree.tokens
  | .identifier name, h => by
    rw [Expr.Coherent] at h
    exact writes_identifier h
  | .integer origin value, h => by
    obtain ⟨literal, rfl, hlexed, -⟩ := h
    exact writes_integer hlexed
  | .boolean origin value, h => by
    obtain rfl := h
    cases value
    · exact writes_keyword .falseWord rfl
    · exact writes_keyword .trueWord rfl
  | .string origin value, h => writes_string h.2
  | .unary origin operator right, h => by
    obtain ⟨⟨kind, hkind, rfl, rfl⟩, hright⟩ := h
    exact writes_unary hkind (right.writes hright) (right.exists_head_render hright)
  | .binary origin left operator right, h => by
    obtain ⟨⟨kind, hkind, rfl, rfl⟩, hleft, hright⟩ := h
    have hsymbol : kind.isSymbol := by
      cases kind <;> first | rfl | cases hkind
    exact writes_binary hsymbol (left.writes hleft) (right.writes hright)
  | .conditional origin condition consequence none, h => by
    obtain ⟨-, hcondition, hconsequence⟩ := h
    exact writes_conditional (condition.writes hcondition) (consequence.writes hconsequence)
  | .conditional origin condition consequence (some alternative), h => by
    obtain ⟨-, hcondition, hconsequence, halternative⟩ := h
    exact writes_conditionalElse (condition.writes hcondition) (consequence.writes hconsequence)
      (alternative.writes halternative)
  | .function origin parameters body, h => by
    obtain ⟨rfl, hnames, hbody⟩ := h
    exact writes_function (writes_names hnames) (body.writes hbody)
  | .call origin callee arguments, h => by
    obtain ⟨-, hcallee, harguments⟩ := h
    exact writes_call (callee.writes hcallee)
      (writes_separated (Expr.writesEach arguments harguments))
  | .array origin elements, h =>
    writes_array (writes_separated (Expr.writesEach elements h.2))
  | .index origin left place, h => by
    obtain ⟨-, hleft, hplace⟩ := h
    exact writes_index (left.writes hleft) (place.writes hplace)
  | .hash origin pairs, h =>
    writes_hash (writes_separated (Expr.writesPairs pairs h.2))

theorem Expr.writesEach : (trees : List Expr) → Expr.CoherentEach trees →
    List.Forall₂ Writes (Expr.renderEach trees) (Expr.tokensEach trees)
  | [], _ => .nil
  | tree :: rest, h => .cons (tree.writes h.1) (Expr.writesEach rest h.2)

theorem Expr.writesPairs : (pairs : List (Expr × Expr)) → Expr.CoherentPairs pairs →
    List.Forall₂ Writes (Expr.renderPairs pairs) (Expr.tokensPairs pairs)
  | [], _ => .nil
  | (key, value) :: rest, h =>
    .cons (writes_pair (key.writes h.1) (value.writes h.2.1)) (Expr.writesPairs rest h.2.2)

theorem Stmt.writes : (tree : Stmt) → tree.Coherent → Writes tree.render tree.tokens
  | .binding origin name value, h => by
    obtain ⟨rfl, hname, hvalue⟩ := h
    exact writes_binding hname (value.writes hvalue)
  | .returning origin value, h => by
    obtain ⟨rfl, hvalue⟩ := h
    exact writes_returning (value.writes hvalue)
  | .expression origin tree, h => tree.writes h.2
  | .block body, h => h.elim

theorem Stmt.writesEach : (trees : List Stmt) → Stmt.CoherentEach trees →
    List.Forall₂ Writes (Stmt.renderEach trees) (Stmt.tokensEach trees)
  | [], _ => .nil
  | [last], h => .cons (last.writes h.1) .nil
  | tree :: next :: rest, h => by
    rw [Stmt.renderEach_cons_cons, Stmt.tokensEach_cons_cons]
    exact .cons (writes_closed (tree.writes h.1)) (Stmt.writesEach (next :: rest) h.2)

theorem Block.writes : (tree : Block) → tree.Coherent → Writes tree.render tree.tokens
  | .mk _ [], _ => writes_emptyBlock
  | .mk _ (first :: rest), h =>
    writes_block (writes_statements (Stmt.writesEach (first :: rest) h.2))

end

/-- The rendering of a coherent program is scanned as the tokens of the program. -/
theorem Program.tokenize_render {program : Program}
    (h : ∀ tree ∈ program.statements, tree.Coherent) :
    tokenize program.render = program.tokens ++ [.endOfInput] := by
  have hwrites : Writes program.render program.tokens :=
    writes_statements (Stmt.writesEach _ (Stmt.coherentEach_iff.mpr h))
  have hscans := hwrites ends_nil (scans_nil _)
  rw [List.append_nil] at hscans
  exact hscans 0

end MonkeyLang
