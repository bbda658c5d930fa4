import Mathlib.Tactic
import MonkeyLang.Program.Parser

/-!
# The grammar of programs

The grammar as relations between lists of tokens and the trees that they stand for. A sentence is a
list of statements; the end of a statement may be marked by a semicolon, and a statement without
one must not stand in front of a token that would go on with it. An expression is a chain of
operands with binary operators between them, an operand has unary operators in front and calls and
indices behind it, and a comma may stand behind the last pair of a hash but not behind the last item
of another list.

The relations do not mention the parser. Which operator of a chain stands at the root of its tree
is said by `chainTree`: the rightmost one of those that bind most loosely.

The lemmas at the end say how a construct starts, which is all that a parser with one token of
lookahead can see of it.
-/

set_option autoImplicit false

namespace MonkeyLang.Grammar

/-! ### Kinds of tokens -/

def isBinaryOperator : Kind → Bool
  | .eq | .notEq | .lt | .gt | .plus | .minus | .asterisk | .slash => true
  | _ => false

/-- Whether a token behind an expression makes it longer. -/
def isContinuation (kind : Kind) : Bool :=
  isBinaryOperator kind || kind = .lparen || kind = .lbracket

def startsExpression : Kind → Bool
  | .identifier | .integer | .string | .trueWord | .falseWord | .bang | .minus | .lparen | .ifWord
  | .functionWord | .lbracket | .lbrace => true
  | _ => false

/-- Whether a statement other than the empty one starts with a token of the kind. -/
def startsStatement (kind : Kind) : Bool :=
  startsExpression kind || kind = .letWord || kind = .returnWord

/-! ### Trees of operator chains -/

/-- A binary operator and the operand behind it. -/
abbrev Link := Token × Expr

/-- The links before, at and behind the rightmost operator of those that bind most loosely. -/
def splitLoosest : List Link → Option (List Link × Link × List Link)
  | [] => none
  | link :: rest =>
    match splitLoosest rest with
    | none => some ([], link, rest)
    | some (before, loosest, after) =>
      if Parser.precedence loosest.1.kind ≤ Parser.precedence link.1.kind then
        some (link :: before, loosest, after)
      else some ([], link, rest)

theorem eq_append_of_splitLoosest {links before after : List Link} {loosest : Link}
    (hsplit : splitLoosest links = some (before, loosest, after)) :
    links = before ++ loosest :: after := by
  induction links generalizing before with
  | nil => simp [splitLoosest] at hsplit
  | cons link rest ih =>
    rw [splitLoosest] at hsplit
    split at hsplit
    · simp only [Option.some.injEq, Prod.mk.injEq] at hsplit
      obtain ⟨rfl, rfl, rfl⟩ := hsplit
      rfl
    · rename_i first middle last hrest
      split_ifs at hsplit
      all_goals
        simp only [Option.some.injEq, Prod.mk.injEq] at hsplit
        obtain ⟨rfl, rfl, rfl⟩ := hsplit
      · rw [ih hrest, List.cons_append]
      · rfl

/-- The tree of a chain that starts with an operand. -/
def chainTree (first : Expr) (links : List Link) : Expr :=
  match hsplit : splitLoosest links with
  | none => first
  | some (before, link, after) =>
    have hlength : links.length = before.length + (after.length + 1) := by
      rw [eq_append_of_splitLoosest hsplit, List.length_append, List.length_cons]
    .binary link.1.origin (chainTree first before) link.1.literal (chainTree link.2 after)
termination_by links.length

theorem chainTree_nil (first : Expr) : chainTree first [] = first := by
  rw [chainTree]
  rfl

/-- Links in front that bind at least as tightly as an operator, and links behind it that bind more
tightly, leave that operator the loosest. -/
theorem splitLoosest_append {before after : List Link} {link : Link}
    (hbefore : ∀ other ∈ before, Parser.precedence link.1.kind ≤ Parser.precedence other.1.kind)
    (hafter : ∀ other ∈ after, Parser.precedence link.1.kind < Parser.precedence other.1.kind) :
    splitLoosest (before ++ link :: after) = some (before, link, after) := by
  induction before with
  | nil =>
    rw [List.nil_append, splitLoosest]
    split
    · rfl
    · rename_i first middle last hsplit
      have hmem : middle ∈ after := by
        rw [eq_append_of_splitLoosest hsplit]
        exact List.mem_append_right _ List.mem_cons_self
      rw [if_neg (not_le.mpr (hafter middle hmem))]
  | cons other rest ih =>
    rw [List.cons_append, splitLoosest, ih fun next hnext ↦ hbefore next (.tail _ hnext)]
    exact if_pos (hbefore other (.head _))

theorem chainTree_append (first : Expr) (link : Link) {before after : List Link}
    (hbefore : ∀ other ∈ before, Parser.precedence link.1.kind ≤ Parser.precedence other.1.kind)
    (hafter : ∀ other ∈ after, Parser.precedence link.1.kind < Parser.precedence other.1.kind) :
    chainTree first (before ++ link :: after) =
      .binary link.1.origin (chainTree first before) link.1.literal (chainTree link.2 after) := by
  rw [chainTree]
  split
  · rename_i hnone
    rw [splitLoosest_append hbefore hafter] at hnone
    cases hnone
  · rename_i before' link' after' hsplit
    rw [splitLoosest_append hbefore hafter] at hsplit
    simp only [Option.some.injEq, Prod.mk.injEq] at hsplit
    obtain ⟨rfl, rfl, rfl⟩ := hsplit
    rfl

/-! ### The rules -/

/-- The names behind the first one in a list of parameters, each after a comma. -/
inductive MoreNames : List Token → List Identifier → Prop
  | nil : MoreNames [] []
  | cons {comma name : Token} {rest : List Token} {names : List Identifier} :
    comma.kind = .comma → name.kind = .identifier → MoreNames rest names →
      MoreNames (comma :: name :: rest) (⟨name.origin, name.literal⟩ :: names)

inductive Names : List Token → List Identifier → Prop
  | nil : Names [] []
  | cons {name : Token} {rest : List Token} {names : List Identifier} :
    name.kind = .identifier → MoreNames rest names →
      Names (name :: rest) (⟨name.origin, name.literal⟩ :: names)

mutual

/-- An operand, and any number of binary operators with operands behind them. -/
inductive Expression : List Token → Expr → Prop
  | chain {tokens rest : List Token} {operand : Expr} {links : List Link} :
    Operand tokens operand → Links rest links →
      Expression (tokens ++ rest) (chainTree operand links)

inductive Links : List Token → List Link → Prop
  | nil : Links [] []
  | cons {operator : Token} {tokens rest : List Token} {operand : Expr} {links : List Link} :
    isBinaryOperator operator.kind → Operand tokens operand → Links rest links →
      Links (operator :: (tokens ++ rest)) ((operator, operand) :: links)

inductive Operand : List Token → Expr → Prop
  | unary {operator : Token} {tokens : List Token} {right : Expr} :
    operator.kind = .bang ∨ operator.kind = .minus → Operand tokens right →
      Operand (operator :: tokens) (.unary operator.origin operator.literal right)
  | plain {tokens rest : List Token} {base tree : Expr} :
    Primary tokens base → Suffixes rest base tree → Operand (tokens ++ rest) tree

/-- Calls and indices, the first one applied to the first tree, and the tree that they make. -/
inductive Suffixes : List Token → Expr → Expr → Prop
  | nil {tree : Expr} : Suffixes [] tree tree
  | call {opening closing : Token} {inner rest : List Token} {base tree : Expr}
      {arguments : List Expr} :
    opening.kind = .lparen → Items inner arguments → closing.kind = .rparen →
      Suffixes rest (.call opening.origin base arguments) tree →
        Suffixes (opening :: (inner ++ closing :: rest)) base tree
  | index {opening closing : Token} {inner rest : List Token} {base place tree : Expr} :
    opening.kind = .lbracket → Expression inner place → closing.kind = .rbracket →
      Suffixes rest (.index opening.origin base place) tree →
        Suffixes (opening :: (inner ++ closing :: rest)) base tree

inductive Primary : List Token → Expr → Prop
  | identifier {token : Token} :
    token.kind = .identifier → Primary [token] (.identifier ⟨token.origin, token.literal⟩)
  | integer {token : Token} {value : Int} :
    token.kind = .integer → Text.Numeral.read token.literal = .ok value → value ≤ int64Max →
      Primary [token] (.integer token.origin value)
  | string {token : Token} :
    token.kind = .string → Primary [token] (.string token.origin token.literal)
  | boolean {token : Token} {value : Bool} :
    token.kind = .trueWord ∨ token.kind = .falseWord →
      token.literal = (if value then "true" else "false") →
        Primary [token] (.boolean token.origin value)
  | grouped {opening closing : Token} {inner : List Token} {tree : Expr} :
    opening.kind = .lparen → Expression inner tree → closing.kind = .rparen →
      Primary (opening :: (inner ++ [closing])) tree
  | conditional {word opening closing : Token} {inner tokens : List Token} {condition : Expr}
      {consequence : MonkeyLang.Block} :
    word.kind = .ifWord → opening.kind = .lparen → Expression inner condition →
      closing.kind = .rparen → Block tokens consequence →
        Primary (word :: opening :: (inner ++ closing :: tokens))
          (.conditional word.origin condition consequence none)
  | conditionalElse {word opening closing otherwise : Token} {inner first second : List Token}
      {condition : Expr} {consequence alternative : MonkeyLang.Block} :
    word.kind = .ifWord → opening.kind = .lparen → Expression inner condition →
      closing.kind = .rparen → Block first consequence → otherwise.kind = .elseWord →
        Block second alternative →
          Primary (word :: opening :: (inner ++ closing :: (first ++ otherwise :: second)))
            (.conditional word.origin condition consequence (some alternative))
  | function {word opening closing : Token} {inner tokens : List Token} {names : List Identifier}
      {body : MonkeyLang.Block} :
    word.kind = .functionWord → opening.kind = .lparen → Names inner names →
      closing.kind = .rparen → Block tokens body →
        Primary (word :: opening :: (inner ++ closing :: tokens)) (.function word.origin names body)
  | array {opening closing : Token} {inner : List Token} {elements : List Expr} :
    opening.kind = .lbracket → Items inner elements → closing.kind = .rbracket →
      Primary (opening :: (inner ++ [closing])) (.array opening.origin elements)
  | hash {opening closing : Token} {inner : List Token} {pairs : List (Expr × Expr)} :
    opening.kind = .lbrace → Pairs inner pairs → closing.kind = .rbrace →
      Primary (opening :: (inner ++ [closing])) (.hash opening.origin pairs)

inductive Items : List Token → List Expr → Prop
  | nil : Items [] []
  | cons {tokens rest : List Token} {item : Expr} {items : List Expr} :
    Expression tokens item → MoreItems rest items → Items (tokens ++ rest) (item :: items)

inductive MoreItems : List Token → List Expr → Prop
  | nil : MoreItems [] []
  | cons {comma : Token} {tokens rest : List Token} {item : Expr} {items : List Expr} :
    comma.kind = .comma → Expression tokens item → MoreItems rest items →
      MoreItems (comma :: (tokens ++ rest)) (item :: items)

/-- Pairs with commas between them, and perhaps one behind the last. -/
inductive Pairs : List Token → List (Expr × Expr) → Prop
  | nil : Pairs [] []
  | last {colon : Token} {first second : List Token} {key value : Expr} :
    Expression first key → colon.kind = .colon → Expression second value →
      Pairs (first ++ colon :: second) [(key, value)]
  | cons {colon comma : Token} {first second rest : List Token} {key value : Expr}
      {pairs : List (Expr × Expr)} :
    Expression first key → colon.kind = .colon → Expression second value → comma.kind = .comma →
      Pairs rest pairs →
        Pairs (first ++ colon :: (second ++ comma :: rest)) ((key, value) :: pairs)

inductive Block : List Token → MonkeyLang.Block → Prop
  | mk {opening closing : Token} {inner : List Token} {statements : List Stmt} :
    opening.kind = .lbrace → Statements inner statements → closing.kind = .rbrace →
      Block (opening :: (inner ++ [closing])) (.mk opening.origin statements)

/-- A statement without the semicolon that may close it. -/
inductive Statement : List Token → Stmt → Prop
  | binding {word name assign : Token} {tokens : List Token} {value : Expr} :
    word.kind = .letWord → name.kind = .identifier → assign.kind = .assign →
      Expression tokens value →
        Statement (word :: name :: assign :: tokens)
          (.binding word.origin ⟨name.origin, name.literal⟩ value)
  | returning {word : Token} {tokens : List Token} {value : Expr} :
    word.kind = .returnWord → Expression tokens value →
      Statement (word :: tokens) (.returning word.origin value)
  | expression {first : Token} {tokens : List Token} {tree : Expr} :
    Expression (first :: tokens) tree → Statement (first :: tokens) (.expression first.origin tree)

inductive Statements : List Token → List Stmt → Prop
  | nil : Statements [] []
  | empty {semicolon : Token} {rest : List Token} {statements : List Stmt} :
    semicolon.kind = .semicolon → Statements rest statements →
      Statements (semicolon :: rest) statements
  | closed {semicolon : Token} {tokens rest : List Token} {statement : Stmt}
      {statements : List Stmt} :
    Statement tokens statement → semicolon.kind = .semicolon → Statements rest statements →
      Statements (tokens ++ semicolon :: rest) (statement :: statements)
  | unclosed {tokens rest : List Token} {statement : Stmt} {statements : List Stmt} :
    Statement tokens statement → (∀ next ∈ rest.head?, ¬ isContinuation next.kind) →
      Statements rest statements → Statements (tokens ++ rest) (statement :: statements)

end

theorem isBinaryOperator_of_mem_links {tokens : List Token} {links : List Link}
    (hlinks : Links tokens links) {link : Link} (hlink : link ∈ links) :
    isBinaryOperator link.1.kind := by
  induction links generalizing tokens with
  | nil => cases hlink
  | cons first rest ih =>
    cases hlinks with
    | cons hoperator _ hrest =>
      rcases List.mem_cons.mp hlink with rfl | hlink
      · exact hoperator
      · exact ih hrest hlink

theorem Links.append {tokens tokens' : List Token} {links links' : List Link}
    (hlinks : Links tokens links) (hlinks' : Links tokens' links') :
    Links (tokens ++ tokens') (links ++ links') := by
  induction links generalizing tokens with
  | nil =>
    cases hlinks
    exact hlinks'
  | cons first rest ih =>
    cases hlinks with
    | cons hoperator hoperand hrest =>
      rw [List.cons_append, List.append_assoc]
      exact .cons hoperator hoperand (ih hrest)

/-! ### How constructs start -/

theorem Primary.exists_cons {tokens : List Token} {tree : Expr} (h : Primary tokens tree) :
    ∃ token rest, tokens = token :: rest ∧ startsExpression token.kind := by
  cases h with
  | boolean hkind =>
    refine ⟨_, _, rfl, ?_⟩
    rcases hkind with hkind | hkind <;> rw [hkind] <;> rfl
  | identifier hkind | integer hkind | string hkind | grouped hkind | conditional hkind
  | conditionalElse hkind | function hkind | array hkind | hash hkind =>
    refine ⟨_, _, rfl, ?_⟩
    rw [hkind]
    rfl

theorem Operand.exists_cons {tokens : List Token} {tree : Expr} (h : Operand tokens tree) :
    ∃ token rest, tokens = token :: rest ∧ startsExpression token.kind := by
  cases h with
  | unary hkind =>
    refine ⟨_, _, rfl, ?_⟩
    rcases hkind with hkind | hkind <;> rw [hkind] <;> rfl
  | plain hprimary =>
    obtain ⟨token, rest, rfl, hkind⟩ := hprimary.exists_cons
    exact ⟨token, _, rfl, hkind⟩

theorem Expression.exists_cons {tokens : List Token} {tree : Expr} (h : Expression tokens tree) :
    ∃ token rest, tokens = token :: rest ∧ startsExpression token.kind := by
  cases h with
  | chain hoperand =>
    obtain ⟨token, rest, rfl, hkind⟩ := hoperand.exists_cons
    exact ⟨token, _, rfl, hkind⟩

theorem Block.exists_cons {tokens : List Token} {tree : MonkeyLang.Block} (h : Block tokens tree) :
    ∃ opening rest, tokens = opening :: rest ∧ opening.kind = .lbrace := by
  cases h with
  | mk hopening => exact ⟨_, _, rfl, hopening⟩

theorem Statement.exists_cons {tokens : List Token} {tree : Stmt} (h : Statement tokens tree) :
    ∃ token rest, tokens = token :: rest ∧ startsStatement token.kind := by
  cases h with
  | binding hkind | returning hkind =>
    refine ⟨_, _, rfl, ?_⟩
    rw [hkind]
    rfl
  | expression hexpression =>
    obtain ⟨token, rest, heq, hkind⟩ := hexpression.exists_cons
    exact ⟨token, rest, heq, by rw [startsStatement, hkind]; rfl⟩

end MonkeyLang.Grammar
