import Mathlib.Tactic
import MonkeyLang.Proofs.Program.Rendering

/-!
# Parsing undoes rendering

A parsed program can be rendered and parsed again, and what comes back is the same program without
a diagnostic. Only the first tokens that expression statements keep may be others, because a
rendering adds parentheses and drops them. `withStarts` exchanges these tokens, and two trees that
become the same by it differ in nothing else.

The tokens of a coherent tree are derived by the grammar. An operand may have calls and indices
behind it, so a tree is derived together with those that follow (`Derives`), which is what the
rendering of a call needs: its callee is rendered without parentheses. From the derivation the
parser's completeness gives the tree that comes back.
-/

set_option autoImplicit false

namespace MonkeyLang

/-! ### Trees up to the first tokens of expression statements -/

mutual

/-- The tree in which every expression statement has the origin that `start` gives to its
expression. -/
def Expr.withStarts (start : Expr → Origin) : Expr → Expr
  | .identifier name => .identifier name
  | .integer origin value => .integer origin value
  | .boolean origin value => .boolean origin value
  | .string origin value => .string origin value
  | .unary origin operator right => .unary origin operator (right.withStarts start)
  | .binary origin left operator right =>
    .binary origin (left.withStarts start) operator (right.withStarts start)
  | .conditional origin condition consequence none =>
    .conditional origin (condition.withStarts start) (consequence.withStarts start) none
  | .conditional origin condition consequence (some alternative) =>
    .conditional origin (condition.withStarts start) (consequence.withStarts start)
      (some (alternative.withStarts start))
  | .function origin parameters body => .function origin parameters (body.withStarts start)
  | .call origin callee arguments =>
    .call origin (callee.withStarts start) (Expr.withStartsEach start arguments)
  | .array origin elements => .array origin (Expr.withStartsEach start elements)
  | .index origin left place => .index origin (left.withStarts start) (place.withStarts start)
  | .hash origin pairs => .hash origin (Expr.withStartsPairs start pairs)

def Expr.withStartsEach (start : Expr → Origin) : List Expr → List Expr
  | [] => []
  | tree :: rest => tree.withStarts start :: Expr.withStartsEach start rest

def Expr.withStartsPairs (start : Expr → Origin) : List (Expr × Expr) → List (Expr × Expr)
  | [] => []
  | (key, value) :: rest =>
    (key.withStarts start, value.withStarts start) :: Expr.withStartsPairs start rest

def Stmt.withStarts (start : Expr → Origin) : Stmt → Stmt
  | .binding origin name value => .binding origin name (value.withStarts start)
  | .returning origin value => .returning origin (value.withStarts start)
  | .expression _ tree => .expression (start tree) (tree.withStarts start)
  | .block body => .block (body.withStarts start)

def Stmt.withStartsEach (start : Expr → Origin) : List Stmt → List Stmt
  | [] => []
  | tree :: rest => tree.withStarts start :: Stmt.withStartsEach start rest

def Block.withStarts (start : Expr → Origin) : Block → Block
  | .mk origin statements => .mk origin (Stmt.withStartsEach start statements)

end

def Program.withStarts (start : Expr → Origin) (program : Program) : Program :=
  ⟨Stmt.withStartsEach start program.statements⟩

/-- The program without the first tokens of its expression statements. -/
def Program.withoutStarts (program : Program) : Program :=
  program.withStarts fun _ ↦ default

section Starts

variable (start : Expr → Origin) (origin : Origin)

theorem Stmt.renderClosed_withStarts {tree : Stmt}
    (h : (tree.withStarts start).render = tree.render) :
    (tree.withStarts start).renderClosed = tree.renderClosed := by
  cases tree with
  | expression _ tree => exact congrArg (· ++ ";") h
  | binding _ _ _ | returning _ _ | block _ => exact h

mutual

theorem Expr.withStarts_withStarts : (tree : Expr) →
    (tree.withStarts start).withStarts (fun _ ↦ origin) = tree.withStarts fun _ ↦ origin
  | .identifier _ | .integer _ _ | .boolean _ _ | .string _ _ => rfl
  | .unary _ _ right => by
    simp only [Expr.withStarts, right.withStarts_withStarts]
  | .binary _ left _ right | .index _ left right => by
    simp only [Expr.withStarts, left.withStarts_withStarts, right.withStarts_withStarts]
  | .conditional _ condition consequence none => by
    simp only [Expr.withStarts, condition.withStarts_withStarts, consequence.withStarts_withStarts]
  | .conditional _ condition consequence (some alternative) => by
    simp only [Expr.withStarts, condition.withStarts_withStarts, consequence.withStarts_withStarts,
      alternative.withStarts_withStarts]
  | .function _ _ body => by
    simp only [Expr.withStarts, body.withStarts_withStarts]
  | .call _ callee arguments => by
    simp only [Expr.withStarts, callee.withStarts_withStarts, Expr.withStartsEach_withStartsEach]
  | .array _ elements => by
    simp only [Expr.withStarts, Expr.withStartsEach_withStartsEach]
  | .hash _ pairs => by
    simp only [Expr.withStarts, Expr.withStartsPairs_withStartsPairs]

theorem Expr.withStartsEach_withStartsEach : (trees : List Expr) →
    Expr.withStartsEach (fun _ ↦ origin) (Expr.withStartsEach start trees) =
      Expr.withStartsEach (fun _ ↦ origin) trees
  | [] => rfl
  | tree :: rest => by
    simp only [Expr.withStartsEach, tree.withStarts_withStarts,
      Expr.withStartsEach_withStartsEach rest]

theorem Expr.withStartsPairs_withStartsPairs : (pairs : List (Expr × Expr)) →
    Expr.withStartsPairs (fun _ ↦ origin) (Expr.withStartsPairs start pairs) =
      Expr.withStartsPairs (fun _ ↦ origin) pairs
  | [] => rfl
  | (key, value) :: rest => by
    simp only [Expr.withStartsPairs, key.withStarts_withStarts, value.withStarts_withStarts,
      Expr.withStartsPairs_withStartsPairs rest]

theorem Stmt.withStarts_withStarts : (tree : Stmt) →
    (tree.withStarts start).withStarts (fun _ ↦ origin) = tree.withStarts fun _ ↦ origin
  | .binding _ _ value | .returning _ value | .expression _ value => by
    simp only [Stmt.withStarts, value.withStarts_withStarts]
  | .block body => by
    simp only [Stmt.withStarts, body.withStarts_withStarts]

theorem Stmt.withStartsEach_withStartsEach : (trees : List Stmt) →
    Stmt.withStartsEach (fun _ ↦ origin) (Stmt.withStartsEach start trees) =
      Stmt.withStartsEach (fun _ ↦ origin) trees
  | [] => rfl
  | tree :: rest => by
    simp only [Stmt.withStartsEach, tree.withStarts_withStarts,
      Stmt.withStartsEach_withStartsEach rest]

theorem Block.withStarts_withStarts : (tree : Block) →
    (tree.withStarts start).withStarts (fun _ ↦ origin) = tree.withStarts fun _ ↦ origin
  | .mk _ statements => by
    simp only [Block.withStarts, Stmt.withStartsEach_withStartsEach statements]

end

mutual

theorem Expr.render_withStarts : (tree : Expr) → (tree.withStarts start).render = tree.render
  | .identifier _ | .integer _ _ | .boolean _ _ | .string _ _ => rfl
  | .unary _ _ right => by
    simp only [Expr.withStarts, Expr.render, right.render_withStarts]
  | .binary _ left _ right | .index _ left right => by
    simp only [Expr.withStarts, Expr.render, left.render_withStarts, right.render_withStarts]
  | .conditional _ condition consequence none => by
    simp only [Expr.withStarts, Expr.render, condition.render_withStarts,
      consequence.render_withStarts]
  | .conditional _ condition consequence (some alternative) => by
    simp only [Expr.withStarts, Expr.render, condition.render_withStarts,
      consequence.render_withStarts, alternative.render_withStarts]
  | .function _ _ body => by
    simp only [Expr.withStarts, Expr.render, body.render_withStarts]
  | .call _ callee arguments => by
    simp only [Expr.withStarts, Expr.render, callee.render_withStarts, Expr.renderEach_withStarts]
  | .array _ elements => by
    simp only [Expr.withStarts, Expr.render, Expr.renderEach_withStarts]
  | .hash _ pairs => by
    simp only [Expr.withStarts, Expr.render, Expr.renderPairs_withStarts]

theorem Expr.renderEach_withStarts : (trees : List Expr) →
    Expr.renderEach (Expr.withStartsEach start trees) = Expr.renderEach trees
  | [] => rfl
  | tree :: rest => by
    simp only [Expr.withStartsEach, Expr.renderEach, tree.render_withStarts,
      Expr.renderEach_withStarts rest]

theorem Expr.renderPairs_withStarts : (pairs : List (Expr × Expr)) →
    Expr.renderPairs (Expr.withStartsPairs start pairs) = Expr.renderPairs pairs
  | [] => rfl
  | (key, value) :: rest => by
    simp only [Expr.withStartsPairs, Expr.renderPairs, key.render_withStarts,
      value.render_withStarts, Expr.renderPairs_withStarts rest]

theorem Stmt.render_withStarts : (tree : Stmt) → (tree.withStarts start).render = tree.render
  | .binding _ _ value | .returning _ value | .expression _ value => by
    simp only [Stmt.withStarts, Stmt.render, value.render_withStarts]
  | .block body => by
    simp only [Stmt.withStarts, Stmt.render, body.render_withStarts]

theorem Stmt.renderEach_withStarts : (trees : List Stmt) →
    Stmt.renderEach (Stmt.withStartsEach start trees) = Stmt.renderEach trees
  | [] => rfl
  | [last] => by
    simp only [Stmt.withStartsEach, Stmt.renderEach, last.render_withStarts]
  | tree :: next :: rest => by
    have hrest := Stmt.renderEach_withStarts (next :: rest)
    rw [Stmt.withStartsEach] at hrest
    rw [Stmt.withStartsEach, Stmt.withStartsEach, Stmt.renderEach_cons_cons,
      Stmt.renderEach_cons_cons, hrest, Stmt.renderClosed_withStarts start tree.render_withStarts]

theorem Block.render_withStarts : (tree : Block) → (tree.withStarts start).render = tree.render
  | .mk _ [] => rfl
  | .mk _ (first :: rest) => by
    have hstatements := Stmt.renderEach_withStarts (first :: rest)
    simp only [Stmt.withStartsEach] at hstatements
    simp only [Block.withStarts, Stmt.withStartsEach, Block.render, hstatements]

end

end Starts

/-! ### Derivations of rendered trees -/

/-- A coherent name is the one that the parser makes of its token. -/
theorem Identifier.eq_of_coherent {name : Identifier} (h : name.Coherent) :
    (⟨name.token.origin, name.token.literal⟩ : Identifier) = name :=
  congrArg (fun origin ↦ (⟨origin, name.value⟩ : Identifier)) h.1.symm

namespace Grammar

/-- The tokens are an operand that stands for the tree, and calls and indices may be added. -/
def Derives (tokens : List Token) (tree : Expr) : Prop :=
  ∀ (more : List Token) (result : Expr), Suffixes more tree result → Operand (tokens ++ more) result

variable {tokens first second : List Token} {tree left right : Expr}

theorem Primary.derives (h : Primary tokens tree) : Derives tokens tree :=
  fun _ _ hmore ↦ .plain h hmore

theorem Derives.operand (h : Derives tokens tree) : Operand tokens tree := by
  have hoperand := h [] tree .nil
  rwa [List.append_nil] at hoperand

theorem Operand.expression (h : Operand tokens tree) : Expression tokens tree := by
  have hchain := Expression.chain h .nil
  rwa [List.append_nil, chainTree_nil] at hchain

theorem Derives.expression (h : Derives tokens tree) : Expression tokens tree :=
  h.operand.expression

/-- A whole expression in parentheses. -/
theorem Expression.derives (h : Expression tokens tree) :
    Derives (Kind.lparen.token :: (tokens ++ [Kind.rparen.token])) tree :=
  (Primary.grouped rfl h rfl).derives

theorem derives_unary {kind : Kind} (hkind : kind = .bang ∨ kind = .minus)
    (hright : Derives tokens right) :
    Derives (Kind.lparen.token :: kind.token :: (tokens ++ [Kind.rparen.token]))
      (.unary kind.origin kind.text right) := by
  have hunary : Operand (kind.token :: tokens) (.unary kind.origin kind.text right) :=
    .unary hkind hright.operand
  exact hunary.expression.derives

theorem derives_binary {kind : Kind} (hkind : isBinaryOperator kind)
    (hleft : Derives first left) (hright : Derives second right) :
    Derives (Kind.lparen.token :: (first ++ kind.token :: (second ++ [Kind.rparen.token])))
      (.binary kind.origin left kind.text right) := by
  -- Within the parentheses stands a chain of one link.
  have hlinks : Links (kind.token :: (second ++ [])) [(kind.token, right)] :=
    .cons hkind hright.operand .nil
  have hchain := Expression.chain hleft.operand hlinks
  have htree : chainTree left [(kind.token, right)] = .binary kind.origin left kind.text right := by
    have happend := chainTree_append left (kind.token, right) (List.forall_mem_nil _)
      (List.forall_mem_nil _)
    rwa [List.nil_append, chainTree_nil, chainTree_nil] at happend
  rw [htree, List.append_nil] at hchain
  have hgrouped := hchain.derives
  rwa [List.append_assoc, List.cons_append] at hgrouped

theorem derives_call {arguments : List Expr} (hleft : Derives first left)
    (harguments : Items second arguments) :
    Derives (first ++ Kind.lparen.token :: (second ++ [Kind.rparen.token]))
      (.call Kind.lparen.origin left arguments) := by
  intro more result hmore
  have hsuffix : Suffixes (Kind.lparen.token :: (second ++ Kind.rparen.token :: more)) left
      result :=
    .call rfl harguments rfl hmore
  have hoperand := hleft _ _ hsuffix
  simpa using hoperand

theorem derives_index (hleft : Derives first left) (hright : Expression second right) :
    Derives (Kind.lparen.token :: (first ++ Kind.lbracket.token ::
        (second ++ [Kind.rbracket.token, Kind.rparen.token])))
      (.index Kind.lbracket.origin left right) := by
  have hsuffix : Suffixes (Kind.lbracket.token :: (second ++ [Kind.rbracket.token])) left
      (.index Kind.lbracket.origin left right) :=
    .index rfl hright rfl .nil
  have hgrouped := (hleft _ _ hsuffix).expression.derives
  simpa using hgrouped

theorem separated_cons_cons (item next : List Token) (rest : List (List Token)) :
    separated (item :: next :: rest) = item ++ Kind.comma.token :: separated (next :: rest) := by
  rw [separated, List.intercalate_cons_cons, List.append_assoc]
  rfl

/-- A list of items is its first item, and the others with a comma in front of each. -/
theorem separated_cons (item : List Token) (rest : List (List Token)) :
    separated (item :: rest) = item ++ (rest.map (Kind.comma.token :: ·)).flatten := by
  induction rest generalizing item with
  | nil =>
    rw [separated, List.intercalate_singleton, List.map_nil, List.flatten_nil, List.append_nil]
  | cons next rest ih =>
    rw [separated_cons_cons, ih, List.map_cons, List.flatten_cons, List.cons_append]

theorem moreNames_flatten {names : List Identifier} (h : ∀ name ∈ names, name.Coherent) :
    MoreNames ((names.map fun name ↦ [name.token]).map (Kind.comma.token :: ·)).flatten names := by
  induction names with
  | nil => exact .nil
  | cons name rest ih =>
    obtain ⟨hname, hrest⟩ := List.forall_mem_cons.mp h
    nth_rewrite 2 [← Identifier.eq_of_coherent hname]
    exact .cons rfl rfl (ih hrest)

theorem names_separated {names : List Identifier} (h : ∀ name ∈ names, name.Coherent) :
    Names (separated (names.map fun name ↦ [name.token])) names := by
  cases names with
  | nil => exact .nil
  | cons name rest =>
    obtain ⟨hname, hrest⟩ := List.forall_mem_cons.mp h
    rw [List.map_cons, separated_cons]
    nth_rewrite 2 [← Identifier.eq_of_coherent hname]
    exact .cons rfl (moreNames_flatten hrest)

theorem moreItems_flatten {items : List (List Token)} {trees : List Expr}
    (h : List.Forall₂ Expression items trees) :
    MoreItems (items.map (Kind.comma.token :: ·)).flatten trees := by
  induction h with
  | nil => exact .nil
  | cons hfirst _ ih => exact .cons rfl hfirst ih

theorem items_separated {items : List (List Token)} {trees : List Expr}
    (h : List.Forall₂ Expression items trees) : Items (separated items) trees := by
  cases h with
  | nil => exact .nil
  | cons hfirst hrest =>
    rw [separated_cons]
    exact .cons hfirst (moreItems_flatten hrest)

/-- The tokens of a key, a colon and the tokens of a value. -/
def Pair (tokens : List Token) (pair : Expr × Expr) : Prop :=
  ∃ first second, tokens = first ++ Kind.colon.token :: second ∧ Expression first pair.1 ∧
    Expression second pair.2

theorem pairs_separated {items : List (List Token)} {pairs : List (Expr × Expr)}
    (h : List.Forall₂ Pair items pairs) : Pairs (separated items) pairs := by
  induction h with
  | nil => exact .nil
  | cons hpair hrest ih =>
    obtain ⟨first, second, rfl, hkey, hvalue⟩ := hpair
    cases hrest with
    | nil =>
      rw [separated, List.intercalate_singleton]
      exact .last hkey rfl hvalue
    | cons _ _ =>
      rw [separated_cons_cons, List.append_assoc, List.cons_append]
      exact .cons hkey rfl hvalue rfl ih

theorem statement_expression (h : Expression tokens tree) :
    Statement tokens (.expression (tokens.headD .endOfInput).origin tree) := by
  obtain ⟨token, rest, rfl, -⟩ := h.exists_cons
  exact .expression h

theorem statement_binding {name : Identifier} (hname : name.Coherent) (h : Expression tokens tree) :
    Statement (Kind.letWord.token :: name.token :: Kind.assign.token :: tokens)
      (.binding Kind.letWord.origin name tree) := by
  nth_rewrite 2 [← Identifier.eq_of_coherent hname]
  exact .binding rfl rfl rfl h

end Grammar

open Grammar

/-- The first token of a rendered expression. -/
def Expr.firstOrigin (tree : Expr) : Origin :=
  (tree.tokens.headD .endOfInput).origin

theorem Stmt.tokens_eq_or (tree : Stmt) :
    tree.tokens = tree.tokensClosed ∨
      tree.tokensClosed = tree.tokens ++ [Kind.semicolon.token] := by
  cases tree with
  | expression _ _ => exact .inr rfl
  | binding _ _ _ | returning _ _ | block _ => exact .inl rfl

mutual

theorem Expr.derives : (tree : Expr) → tree.Coherent →
    Derives tree.tokens (tree.withStarts Expr.firstOrigin)
  | .identifier name, h => by
    have hname : Primary [name.token] (.identifier ⟨name.token.origin, name.token.literal⟩) :=
      .identifier rfl
    rw [Identifier.eq_of_coherent h] at hname
    exact hname.derives
  | .integer origin value, h => by
    obtain ⟨literal, rfl, -, hread, hle⟩ := h
    have hinteger : Primary [⟨.integer, literal⟩]
        (.integer (Token.origin ⟨.integer, literal⟩) value) :=
      .integer rfl hread hle
    exact hinteger.derives
  | .boolean origin value, h => by
    obtain rfl := h
    cases value
    · exact Primary.derives (.boolean (.inr rfl) rfl)
    · exact Primary.derives (.boolean (.inl rfl) rfl)
  | .string origin value, h => by
    obtain ⟨rfl, -⟩ := h
    exact Primary.derives (.string rfl)
  | .unary origin operator right, h => by
    obtain ⟨⟨kind, hkind, rfl, rfl⟩, hright⟩ := h
    exact derives_unary hkind (right.derives hright)
  | .binary origin left operator right, h => by
    obtain ⟨⟨kind, hkind, rfl, rfl⟩, hleft, hright⟩ := h
    exact derives_binary hkind (left.derives hleft) (right.derives hright)
  | .conditional origin condition consequence none, h => by
    obtain ⟨rfl, hcondition, hconsequence⟩ := h
    exact Primary.derives (.conditional rfl rfl (condition.derives hcondition).expression rfl
      (consequence.derives hconsequence))
  | .conditional origin condition consequence (some alternative), h => by
    obtain ⟨rfl, hcondition, hconsequence, halternative⟩ := h
    exact Primary.derives (.conditionalElse rfl rfl (condition.derives hcondition).expression rfl
      (consequence.derives hconsequence) rfl (alternative.derives halternative))
  | .function origin parameters body, h => by
    obtain ⟨rfl, hnames, hbody⟩ := h
    exact Primary.derives (.function rfl rfl (names_separated hnames) rfl (body.derives hbody))
  | .call origin callee arguments, h => by
    obtain ⟨rfl, hcallee, harguments⟩ := h
    exact derives_call (callee.derives hcallee)
      (items_separated (Expr.derivesEach arguments harguments))
  | .array origin elements, h => by
    obtain ⟨rfl, helements⟩ := h
    exact Primary.derives (.array rfl (items_separated (Expr.derivesEach elements helements)) rfl)
  | .index origin left place, h => by
    obtain ⟨rfl, hleft, hplace⟩ := h
    exact derives_index (left.derives hleft) (place.derives hplace).expression
  | .hash origin pairs, h => by
    obtain ⟨rfl, hpairs⟩ := h
    exact Primary.derives (.hash rfl (pairs_separated (Expr.derivesPairs pairs hpairs)) rfl)

theorem Expr.derivesEach : (trees : List Expr) → Expr.CoherentEach trees →
    List.Forall₂ Expression (Expr.tokensEach trees) (Expr.withStartsEach Expr.firstOrigin trees)
  | [], _ => .nil
  | tree :: rest, h => .cons (tree.derives h.1).expression (Expr.derivesEach rest h.2)

theorem Expr.derivesPairs : (pairs : List (Expr × Expr)) → Expr.CoherentPairs pairs →
    List.Forall₂ Pair (Expr.tokensPairs pairs) (Expr.withStartsPairs Expr.firstOrigin pairs)
  | [], _ => .nil
  | (key, value) :: rest, h =>
    .cons ⟨_, _, rfl, (key.derives h.1).expression, (value.derives h.2.1).expression⟩
      (Expr.derivesPairs rest h.2.2)

/-- The tokens of a closed statement are those of the statement and a semicolon. -/
theorem Stmt.derives : (tree : Stmt) → tree.Coherent →
    ∃ tokens, tree.tokensClosed = tokens ++ [Kind.semicolon.token] ∧
      Statement tokens (tree.withStarts Expr.firstOrigin)
  | .binding origin name value, h => by
    obtain ⟨rfl, hname, hvalue⟩ := h
    exact ⟨_, rfl, statement_binding hname (value.derives hvalue).expression⟩
  | .returning origin value, h => by
    obtain ⟨rfl, hvalue⟩ := h
    exact ⟨_, rfl, .returning rfl (value.derives hvalue).expression⟩
  | .expression origin tree, h => ⟨_, rfl, statement_expression (tree.derives h.2).expression⟩
  | .block body, h => h.elim

theorem Stmt.derivesEach : (trees : List Stmt) → Stmt.CoherentEach trees →
    Statements (Stmt.tokensEach trees).flatten (Stmt.withStartsEach Expr.firstOrigin trees)
  | [], _ => .nil
  | [last], h => by
    obtain ⟨tokens, heq, hstatement⟩ := last.derives h.1
    rw [Stmt.tokensEach, List.flatten_singleton]
    rcases last.tokens_eq_or with hclosed | hopen
    · -- A let or return statement has its semicolon, also as the last one.
      rw [hclosed, heq]
      exact .closed hstatement rfl .nil
    · obtain rfl : tokens = last.tokens := List.append_cancel_right (heq.symm.trans hopen)
      rw [← List.append_nil last.tokens]
      exact .unclosed hstatement (by simp) .nil
  | tree :: next :: rest, h => by
    obtain ⟨tokens, heq, hstatement⟩ := tree.derives h.1
    rw [Stmt.tokensEach_cons_cons, List.flatten_cons, heq, List.append_assoc]
    exact .closed hstatement rfl (Stmt.derivesEach (next :: rest) h.2)

theorem Block.derives : (tree : MonkeyLang.Block) → tree.Coherent →
    Grammar.Block tree.tokens (tree.withStarts Expr.firstOrigin)
  | .mk origin statements, h => by
    obtain ⟨rfl, hstatements⟩ := h
    exact .mk rfl (Stmt.derivesEach statements hstatements) rfl

end

/-! ### Programs -/

theorem Program.withoutStarts_withStarts (start : Expr → Origin) (program : Program) :
    (program.withStarts start).withoutStarts = program.withoutStarts :=
  congrArg Program.mk (Stmt.withStartsEach_withStartsEach start default program.statements)

theorem Program.render_withStarts (start : Expr → Origin) (program : Program) :
    (program.withStarts start).render = program.render :=
  congrArg (" ".intercalate ·) (Stmt.renderEach_withStarts start program.statements)

/-- A coherent program comes back from its rendering, unless the parse is cut off. -/
theorem Program.ofTokens_tokenize_render (limit : Nat) {program : Program}
    (h : ∀ tree ∈ program.statements, tree.Coherent) :
    Program.ofTokens limit (tokenize program.render) =
        ⟨program.withStarts Expr.firstOrigin, []⟩ ∨
      Diagnostic.nestingTooDeep ∈
        (Program.ofTokens limit (tokenize program.render)).problems := by
  have hderives := Stmt.derivesEach program.statements (Stmt.coherentEach_iff.mpr h)
  rw [Program.tokenize_render h]
  exact Parser.ofTokens_complete limit hderives rfl

/-- The program of a source text, whatever diagnostics the text has, is rendered as a text that is
parsed without a diagnostic, as the same program up to the first tokens of expression statements,
and that is rendered as itself again. The only exception is a rendering whose parse is cut off
because it is nested too deeply. -/
theorem Program.parsing_undoes_rendering (limit limit' : Nat) (source : String)
    (hdeep : Diagnostic.nestingTooDeep ∉
      (Program.ofTokens limit'
        (tokenize (Program.ofTokens limit (tokenize source)).program.render)).problems) :
    let program := (Program.ofTokens limit (tokenize source)).program
    let again := Program.ofTokens limit' (tokenize program.render)
    again.problems = [] ∧ again.program.withoutStarts = program.withoutStarts ∧
      again.program.render = program.render := by
  intro program again
  rcases Program.ofTokens_tokenize_render limit' (Program.ofTokens_coherent limit source) with
    heq | hmem
  · have hagain : again = ⟨program.withStarts Expr.firstOrigin, []⟩ := heq
    rw [hagain]
    exact ⟨rfl, program.withoutStarts_withStarts _, program.render_withStarts _⟩
  · exact absurd hmem hdeep

/-- A text with diagnostics whose rendering has other first tokens. -/
theorem Program.parsing_undoes_rendering_of_called_function :
    let source := "let; (fn(x) \x7b (x); if (!x) \x7b\x7d else \x7b \x7b1: x\x7d \x7d \x7d)(-a, [b])[0]"
    let program := (Program.ofSource source).program
    let again := Program.ofSource program.render
    (Program.ofSource source).problems ≠ [] ∧ program.statements.length = 1 ∧
      again.problems = [] ∧ again.program.withoutStarts = program.withoutStarts ∧
      again.program.render = program.render :=
  ⟨by decide +kernel, by decide +kernel,
    Program.parsing_undoes_rendering Parser.depthLimit Parser.depthLimit _ (by decide +kernel)⟩

end MonkeyLang
