import Mathlib.Data.List.TakeWhile
import MonkeyLang.Proofs.Parser.Completeness
import MonkeyLang.Proofs.Parser.DepthLimit

/-!
# Chains of operators

A chain is a row of operands with binary operators between them. An operand has signs in front of
its base and calls and indices behind it, and what stands in its brackets are chains again. `Chain`
is the type of these rows with their tokens, which carry the proofs of their kinds, so that every
value of the type is a chain that can be written down.

A chain is read by splitting it: at the rightmost of its operators of the lowest level, into the
chain before that operator and the chain behind it (`Chain.splitTree`). The levels are those of
`Chain.level`, which does not mention the numbers that the parser climbs by. The parser never sees a
chain as a whole, and yet a chain of any length is parsed as the one tree that its splitting gives.
-/

set_option autoImplicit false

namespace MonkeyLang

open Grammar (Link isBinaryOperator)

/-! ### Chains and their tokens -/

abbrev TokenOf (kind : Kind) := {token : Token // token.kind = kind}

mutual

inductive Chain
  | mk (first : Chain.Operand) (links : Chain.Links)

/-- Binary operators, each with the operand behind it. -/
inductive Chain.Links
  | nil
  | cons (operator : {token : Token // isBinaryOperator token.kind}) (operand : Chain.Operand)
      (rest : Chain.Links)

inductive Chain.Operand
  | signed (sign : {token : Token // token.kind = .bang ∨ token.kind = .minus})
      (operand : Chain.Operand)
  | plain (base : Chain.Base) (suffixes : Chain.Suffixes)

inductive Chain.Base
  | identifier (token : TokenOf .identifier)
  | integer (token : TokenOf .integer) (value : Int)
      (legal : Text.Numeral.read token.val.literal = .ok value ∧ value ≤ int64Max)
  | string (token : TokenOf .string)
  | boolean (token : {token : Token // token.kind = .trueWord ∨ token.kind = .falseWord})
      (value : Bool) (legal : token.val.literal = if value then "true" else "false")
  | grouped (opening : TokenOf .lparen) (inner : Chain) (closing : TokenOf .rparen)

inductive Chain.Suffixes
  | nil
  | call (opening : TokenOf .lparen) (arguments : Chain.Arguments) (closing : TokenOf .rparen)
      (rest : Chain.Suffixes)
  | index (opening : TokenOf .lbracket) (place : Chain) (closing : TokenOf .rbracket)
      (rest : Chain.Suffixes)

inductive Chain.Arguments
  | nil
  | cons (first : Chain) (more : Chain.MoreArguments)

/-- Chains behind the first one, each after a comma. -/
inductive Chain.MoreArguments
  | nil
  | cons (comma : TokenOf .comma) (next : Chain) (rest : Chain.MoreArguments)

end

namespace Chain

mutual

def tokens : Chain → List Token
  | .mk first links => first.tokens ++ links.tokens

def Links.tokens : Links → List Token
  | .nil => []
  | .cons operator operand rest => operator.val :: (operand.tokens ++ rest.tokens)

def Operand.tokens : Operand → List Token
  | .signed sign operand => sign.val :: operand.tokens
  | .plain base suffixes => base.tokens ++ suffixes.tokens

def Base.tokens : Base → List Token
  | .identifier token => [token.val]
  | .integer token _ _ => [token.val]
  | .string token => [token.val]
  | .boolean token _ _ => [token.val]
  | .grouped opening inner closing => opening.val :: (inner.tokens ++ [closing.val])

def Suffixes.tokens : Suffixes → List Token
  | .nil => []
  | .call opening arguments closing rest =>
    opening.val :: (arguments.tokens ++ closing.val :: rest.tokens)
  | .index opening place closing rest =>
    opening.val :: (place.tokens ++ closing.val :: rest.tokens)

def Arguments.tokens : Arguments → List Token
  | .nil => []
  | .cons first more => first.tokens ++ more.tokens

def MoreArguments.tokens : MoreArguments → List Token
  | .nil => []
  | .cons comma next rest => comma.val :: (next.tokens ++ rest.tokens)

end

/-! ### Trees by splitting -/

/-- The levels of binary operators, from loose to tight: equality, comparison, sum, product. -/
def level : Kind → Nat
  | .eq | .notEq => 0
  | .lt | .gt => 1
  | .plus | .minus => 2
  | .asterisk | .slash => 3
  | _ => 4

/-- Whether some operator has a lower level than the given one. -/
def undercut (links : List Link) (link : Link) : Bool :=
  links.any fun other ↦ level other.1.kind < level link.1.kind

theorem eq_append_of_span {links after before : List Link} {link : Link}
    (hsplit : links.reverse.span (undercut links) = (after, link :: before)) :
    links = before.reverse ++ link :: after.reverse := by
  rw [List.span_eq_takeWhile_dropWhile, Prod.mk.injEq] at hsplit
  obtain ⟨rfl, hbefore⟩ := hsplit
  have happend := List.takeWhile_append_dropWhile (p := undercut links) (l := links.reverse)
  rw [hbefore] at happend
  have hreverse := congrArg List.reverse happend
  simpa using hreverse.symm

/-- The tree of operands with operators between them. Going from the right, operators that another
one undercuts are passed over; the first one that is left stands at the root. -/
def splitTree (first : Expr) (links : List Link) : Expr :=
  match hsplit : links.reverse.span (undercut links) with
  | (_, []) => first
  | (after, link :: before) =>
    have hlength : links.length = before.length + (after.length + 1) := by
      rw [eq_append_of_span hsplit, List.length_append, List.length_cons, List.length_reverse,
        List.length_reverse]
    .binary link.1.origin (splitTree first before.reverse) link.1.literal
      (splitTree link.2 after.reverse)
termination_by links.length

mutual

def tree : Chain → Expr
  | .mk first links => splitTree first.tree links.trees

def Links.trees : Links → List Link
  | .nil => []
  | .cons operator operand rest => (operator.val, operand.tree) :: rest.trees

def Operand.tree : Operand → Expr
  | .signed sign operand => .unary sign.val.origin sign.val.literal operand.tree
  | .plain base suffixes => suffixes.tree base.tree

def Base.tree : Base → Expr
  | .identifier token => .identifier ⟨token.val.origin, token.val.literal⟩
  | .integer token value _ => .integer token.val.origin value
  | .string token => .string token.val.origin token.val.literal
  | .boolean token value _ => .boolean token.val.origin value
  | .grouped _ inner _ => inner.tree

/-- The suffixes, the first one applied first. -/
def Suffixes.tree : Suffixes → Expr → Expr
  | .nil, base => base
  | .call opening arguments _ rest, base =>
    rest.tree (.call opening.val.origin base arguments.trees)
  | .index opening place _ rest, base => rest.tree (.index opening.val.origin base place.tree)

def Arguments.trees : Arguments → List Expr
  | .nil => []
  | .cons first more => first.tree :: more.trees

def MoreArguments.trees : MoreArguments → List Expr
  | .nil => []
  | .cons _ next rest => next.tree :: rest.trees

end

/-! ### Splitting is the grammar's reading -/

theorem precedence_eq_level {kind : Kind} (hkind : isBinaryOperator kind) :
    Parser.precedence kind = level kind + 2 := by
  cases kind <;> first | rfl | cases hkind

/-- Of several operators one has the lowest level. -/
theorem exists_not_undercut {links : List Link} (hlinks : links ≠ []) :
    ∃ link ∈ links, undercut links link = false := by
  obtain ⟨link, hlink, hlowest⟩ :=
    (measure fun link : Link ↦ level link.1.kind).wf.has_min {link | link ∈ links}
      (List.exists_mem_of_ne_nil links hlinks)
  refine ⟨link, hlink, List.any_eq_false.mpr fun other hother ↦ ?_⟩
  have hnot : ¬ level other.1.kind < level link.1.kind := hlowest other hother
  simpa using hnot

theorem le_of_not_undercut {links : List Link} {link other : Link}
    (hnot : undercut links link = false) (hother : other ∈ links) :
    level link.1.kind ≤ level other.1.kind := by
  have hlevel := List.any_eq_false.mp hnot other hother
  simpa using hlevel

/-- The operator at the root is not undercut, and those behind it are. -/
theorem root_of_span {links after before : List Link} {link : Link}
    (hsplit : links.reverse.span (undercut links) = (after, link :: before)) :
    undercut links link = false ∧ ∀ other ∈ after.reverse, undercut links other := by
  rw [List.span_eq_takeWhile_dropWhile, Prod.mk.injEq] at hsplit
  obtain ⟨rfl, hbefore⟩ := hsplit
  constructor
  · have hhead := List.head?_dropWhile_not (undercut links) links.reverse
    rw [hbefore] at hhead
    exact Bool.eq_false_iff.mpr (by simpa using hhead)
  · intro other hother
    exact List.mem_takeWhile_imp (List.mem_reverse.mp hother)

theorem splitTree_eq_chainTree (first : Expr) (links : List Link)
    (hlinks : ∀ link ∈ links, isBinaryOperator link.1.kind) :
    splitTree first links = Grammar.chainTree first links := by
  fun_induction splitTree first links with
  | case1 first links skipped hsplit =>
    -- with no operator left they would all be undercut, and a lowest one is not
    have hnil : links = [] := by
      by_contra hne
      obtain ⟨link, hlink, hnot⟩ := exists_not_undercut hne
      rw [List.span_eq_takeWhile_dropWhile, Prod.mk.injEq, List.dropWhile_eq_nil_iff] at hsplit
      rw [hsplit.2 link (List.mem_reverse.mpr hlink)] at hnot
      cases hnot
    rw [hnil, Grammar.chainTree_nil]
  | case2 first links after link before hsplit hlength ihbefore ihafter =>
    have heq := eq_append_of_span hsplit
    obtain ⟨hnot, hafter⟩ := root_of_span hsplit
    have hbefore : ∀ other ∈ before.reverse, other ∈ links :=
      fun other hother ↦ heq ▸ List.mem_append_left _ hother
    have hlink : link ∈ links := heq ▸ List.mem_append_right _ (.head _)
    have hbehind : ∀ other ∈ after.reverse, other ∈ links :=
      fun other hother ↦ heq ▸ List.mem_append_right _ (.tail _ hother)
    have hlower : ∀ other ∈ before.reverse,
        Parser.precedence link.1.kind ≤ Parser.precedence other.1.kind := by
      intro other hother
      rw [precedence_eq_level (hlinks link hlink),
        precedence_eq_level (hlinks other (hbefore other hother))]
      exact Nat.add_le_add_right (le_of_not_undercut hnot (hbefore other hother)) 2
    have hhigher : ∀ other ∈ after.reverse,
        Parser.precedence link.1.kind < Parser.precedence other.1.kind := by
      intro other hother
      obtain ⟨lower, hmem, hlt⟩ := List.any_eq_true.mp (hafter other hother)
      rw [precedence_eq_level (hlinks link hlink),
        precedence_eq_level (hlinks other (hbehind other hother))]
      have hle := le_of_not_undercut hnot hmem
      have hlt := of_decide_eq_true hlt
      omega
    rw [ihbefore fun other hother ↦ hlinks other (hbefore other hother),
      ihafter fun other hother ↦ hlinks other (hbehind other hother),
      ← Grammar.chainTree_append first link hlower hhigher, ← heq]

/-! ### Chains are expressions of the grammar -/

mutual

theorem expression : ∀ chain : Chain, Grammar.Expression chain.tokens chain.tree
  | .mk first links => by
    have hlinks := links.derives
    rw [tokens, tree, splitTree_eq_chainTree _ _ fun link hlink ↦
      Grammar.isBinaryOperator_of_mem_links hlinks hlink]
    exact .chain first.derives hlinks

theorem Links.derives : ∀ links : Links, Grammar.Links links.tokens links.trees
  | .nil => .nil
  | .cons operator operand rest => .cons operator.property operand.derives rest.derives

theorem Operand.derives : ∀ operand : Operand, Grammar.Operand operand.tokens operand.tree
  | .signed sign operand => .unary sign.property operand.derives
  | .plain base suffixes => .plain base.derives (suffixes.derives base.tree)

theorem Base.derives : ∀ base : Base, Grammar.Primary base.tokens base.tree
  | .identifier token => .identifier token.property
  | .integer token _ legal => .integer token.property legal.1 legal.2
  | .string token => .string token.property
  | .boolean token _ legal => .boolean token.property legal
  | .grouped opening inner closing => .grouped opening.property inner.expression closing.property

theorem Suffixes.derives : ∀ (suffixes : Suffixes) (base : Expr),
    Grammar.Suffixes suffixes.tokens base (suffixes.tree base)
  | .nil, _ => .nil
  | .call opening arguments closing rest, _ =>
    .call opening.property arguments.derives closing.property (rest.derives _)
  | .index opening place closing rest, _ =>
    .index opening.property place.expression closing.property (rest.derives _)

theorem Arguments.derives : ∀ arguments : Arguments,
    Grammar.Items arguments.tokens arguments.trees
  | .nil => .nil
  | .cons first more => .cons first.expression more.derives

theorem MoreArguments.derives : ∀ more : MoreArguments,
    Grammar.MoreItems more.tokens more.trees
  | .nil => .nil
  | .cons comma next rest => .cons comma.property next.expression rest.derives

end

/-- The statement that a chain is when it stands alone. -/
def statement (chain : Chain) : Stmt :=
  .expression (chain.tokens.headD .endOfInput).origin chain.tree

theorem statements (chain : Chain) : Grammar.Statements chain.tokens [chain.statement] := by
  have hexpression := chain.expression
  obtain ⟨first, rest, htokens, -⟩ := hexpression.exists_cons
  have hstatement : Grammar.Statement chain.tokens chain.statement := by
    rw [statement, htokens]
    exact .expression (htokens ▸ hexpression)
  have hstatements := Grammar.Statements.unclosed hstatement (by simp) .nil
  rwa [List.append_nil] at hstatements

end Chain

/-- A chain that stands alone is parsed, without a diagnostic, as one statement of the tree that
splitting gives: by every limit that is not reached, and every chain has limits that are not. -/
theorem chain_parses_as_split (chain : Chain) :
    (∀ limit,
      Diagnostic.nestingTooDeep ∉
          (Program.ofTokens limit (chain.tokens ++ [.endOfInput])).problems →
        Program.ofTokens limit (chain.tokens ++ [.endOfInput]) = ⟨⟨[chain.statement]⟩, []⟩) ∧
      ∃ enough, ∀ limit, enough ≤ limit →
        Program.ofTokens limit (chain.tokens ++ [.endOfInput]) = ⟨⟨[chain.statement]⟩, []⟩ := by
  have hparses : ∀ limit,
      Diagnostic.nestingTooDeep ∉
          (Program.ofTokens limit (chain.tokens ++ [.endOfInput])).problems →
        Program.ofTokens limit (chain.tokens ++ [.endOfInput]) = ⟨⟨[chain.statement]⟩, []⟩ :=
    fun limit hlimit ↦
      (Parser.ofTokens_complete limit chain.statements rfl).resolve_right hlimit
  exact ⟨hparses, Parser.enoughDepth (chain.tokens ++ [Token.endOfInput]).length,
    fun limit hle ↦ hparses limit (Program.nestingTooDeep_not_mem hle)⟩

def Chain.Operand.name (text : String) : Chain.Operand :=
  .plain (.identifier ⟨⟨.identifier, text⟩, rfl⟩) .nil

/-- A chain with signs, a group and an index, and with operators of three levels. -/
def Chain.mixedLevels : Chain :=
  .mk (.name "a")
    (.cons ⟨⟨.minus, "-"⟩, rfl⟩ (.signed ⟨⟨.minus, "-"⟩, .inr rfl⟩ (.name "b"))
    (.cons ⟨⟨.asterisk, "*"⟩, rfl⟩
      (.plain (.grouped ⟨⟨.lparen, "("⟩, rfl⟩ (.mk (.name "c") .nil) ⟨⟨.rparen, ")"⟩, rfl⟩)
        (.index ⟨⟨.lbracket, "["⟩, rfl⟩ (.mk (.name "i") .nil) ⟨⟨.rbracket, "]"⟩, rfl⟩ .nil))
    (.cons ⟨⟨.eq, "=="⟩, rfl⟩ (.signed ⟨⟨.bang, "!"⟩, .inl rfl⟩ (.name "d"))
    (.cons ⟨⟨.minus, "-"⟩, rfl⟩ (.name "e") .nil))))

theorem mixedLevels_parses :
    Chain.mixedLevels.tokens ++ [.endOfInput] = tokenize "a - -b * (c)[i] == !d - e" ∧
      Program.ofTokens 100 (tokenize "a - -b * (c)[i] == !d - e") =
        ⟨⟨[Chain.mixedLevels.statement]⟩, []⟩ := by
  have htokens : Chain.mixedLevels.tokens ++ [.endOfInput] =
      tokenize "a - -b * (c)[i] == !d - e" := by
    decide +kernel
  refine ⟨htokens, ?_⟩
  rw [← htokens]
  exact (chain_parses_as_split Chain.mixedLevels).1 100 (by decide +kernel)

end MonkeyLang
