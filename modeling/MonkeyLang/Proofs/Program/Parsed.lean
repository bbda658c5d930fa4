import Mathlib.Tactic
import MonkeyLang.Proofs.Parser.Coherence
import MonkeyLang.Proofs.Program.Nodes

/-!
# What the nodes of a parsed program keep of their tokens

Rendering, evaluating and writing a tree rely on its fields and its tokens telling the same story.
`Node.Agrees` says of one node what that story is, without a look at the nodes below it: a name is
the text of an identifier token and no keyword, a number is what the digits of its token spell, an
operator is the text of its own token, every other node has the token of its kind, and no block
stands among the statements of a block or a program.

All nodes of the program of a source text agree with their tokens, also where diagnostics say that
parsing had to start again in the middle of a construct. This is the coherence of parsed trees, read
node by node.
-/

set_option autoImplicit false

namespace MonkeyLang

def Stmt.isBlock : Stmt → Bool
  | .block _ => true
  | _ => false

/-- The name is the text of its identifier token: a word, and no keyword. -/
def Identifier.Agrees (name : Identifier) : Prop :=
  name.origin = Token.origin ⟨.identifier, name.value⟩ ∧ name.value.toList ≠ [] ∧
    (∀ c ∈ name.value.toList, Alphabet.unicode.isWordChar c) ∧ Kind.ofKeyword? name.value = none

/-- The fields of the node and its token belong together. -/
def Node.Agrees : Node → Prop
  | .program tree => ∀ part ∈ tree.statements, part.isBlock = false
  | .statement (.binding origin name _) => origin = Kind.letWord.origin ∧ name.Agrees
  | .statement (.returning origin _) => origin = Kind.returnWord.origin
  | .statement (.expression origin _) => ∃ token : Token, origin = token.origin
  | .statement (.block (.mk origin statements)) =>
    origin = Kind.lbrace.origin ∧ ∀ part ∈ statements, part.isBlock = false
  | .expression (.identifier name) => name.Agrees
  | .expression (.integer origin value) =>
    ∃ literal, origin = Token.origin ⟨.integer, literal⟩ ∧
      Text.Numeral.read literal = .ok value ∧ 0 ≤ value ∧ value ≤ int64Max
  | .expression (.boolean origin value) =>
    origin = (if value then Kind.trueWord else .falseWord).origin
  | .expression (.string origin value) =>
    origin = Token.origin ⟨.string, value⟩ ∧ '"' ∉ value.toList
  | .expression (.unary origin operator _) =>
    ∃ kind : Kind, (kind = .bang ∨ kind = .minus) ∧ origin = kind.origin ∧ operator = kind.text
  | .expression (.binary origin _ operator _) =>
    ∃ kind : Kind, Grammar.isBinaryOperator kind ∧ origin = kind.origin ∧ operator = kind.text
  | .expression (.conditional origin _ _ _) => origin = Kind.ifWord.origin
  | .expression (.function origin parameters _) =>
    origin = Kind.functionWord.origin ∧ ∀ name ∈ parameters, name.Agrees
  | .expression (.call origin _ _) => origin = Kind.lparen.origin
  | .expression (.array origin _) => origin = Kind.lbracket.origin
  | .expression (.index origin _ _) => origin = Kind.lbracket.origin
  | .expression (.hash origin _) => origin = Kind.lbrace.origin

/-- The property holds of the program and of every node in it. -/
def Program.Every (p : Node → Prop) (program : Program) : Prop :=
  p (.program program) ∧ Stmt.EveryIn p program.statements

/-! ### Coherent trees, node by node -/

theorem Identifier.Coherent.agrees {name : Identifier} (h : name.Coherent) : name.Agrees :=
  ⟨h.1, h.2⟩

theorem Stmt.Coherent.isBlock_eq_false {tree : Stmt} (h : tree.Coherent) :
    tree.isBlock = false := by
  cases tree with
  | block body =>
    rw [Stmt.Coherent] at h
    exact h.elim
  | binding | returning | expression => rfl

mutual

theorem Expr.every_agrees : (tree : Expr) → tree.Coherent → tree.Every Node.Agrees
  | .identifier _, h => Identifier.Coherent.agrees h
  | .integer _ _, h => by
    obtain ⟨literal, horigin, hlexed, hread, hmax⟩ := h
    exact ⟨literal, horigin, hread, hlexed.read_nonneg hread, hmax⟩
  | .boolean _ _, h => h
  | .string _ _, h => h
  | .unary _ _ right, h => ⟨h.1, right.every_agrees h.2⟩
  | .binary _ left _ right, h => ⟨h.1, left.every_agrees h.2.1, right.every_agrees h.2.2⟩
  | .conditional _ condition consequence none, h =>
    ⟨h.1, condition.every_agrees h.2.1, consequence.every_agrees h.2.2⟩
  | .conditional _ condition consequence (some alternative), h =>
    ⟨h.1, condition.every_agrees h.2.1, consequence.every_agrees h.2.2.1,
      alternative.every_agrees h.2.2.2⟩
  | .function _ _ body, h =>
    ⟨⟨h.1, fun name hname ↦ (h.2.1 name hname).agrees⟩, body.every_agrees h.2.2⟩
  | .call _ callee arguments, h =>
    ⟨h.1, callee.every_agrees h.2.1, Expr.everyIn_agrees arguments h.2.2⟩
  | .array _ elements, h => ⟨h.1, Expr.everyIn_agrees elements h.2⟩
  | .index _ left place, h => ⟨h.1, left.every_agrees h.2.1, place.every_agrees h.2.2⟩
  | .hash _ pairs, h => ⟨h.1, Expr.everyInPairs_agrees pairs h.2⟩

theorem Expr.everyIn_agrees :
    (trees : List Expr) → Expr.CoherentEach trees → Expr.EveryIn Node.Agrees trees
  | [], _ => trivial
  | tree :: rest, h => ⟨tree.every_agrees h.1, Expr.everyIn_agrees rest h.2⟩

theorem Expr.everyInPairs_agrees : (pairs : List (Expr × Expr)) → Expr.CoherentPairs pairs →
    Expr.EveryInPairs Node.Agrees pairs
  | [], _ => trivial
  | (key, value) :: rest, h =>
    ⟨key.every_agrees h.1, value.every_agrees h.2.1, Expr.everyInPairs_agrees rest h.2.2⟩

theorem Stmt.every_agrees : (tree : Stmt) → tree.Coherent → tree.Every Node.Agrees
  | .binding _ _ value, h => ⟨⟨h.1, h.2.1.agrees⟩, value.every_agrees h.2.2⟩
  | .returning _ value, h => ⟨h.1, value.every_agrees h.2⟩
  | .expression _ tree, h => ⟨h.1, tree.every_agrees h.2⟩
  | .block _, h => h.elim

theorem Stmt.everyIn_agrees :
    (trees : List Stmt) → Stmt.CoherentEach trees → Stmt.EveryIn Node.Agrees trees
  | [], _ => trivial
  | tree :: rest, h => ⟨tree.every_agrees h.1, Stmt.everyIn_agrees rest h.2⟩

theorem Block.every_agrees : (tree : Block) → tree.Coherent → tree.Every Node.Agrees
  | .mk _ statements, h =>
    ⟨⟨h.1, fun tree hmem ↦ (Stmt.coherentEach_iff.mp h.2 tree hmem).isBlock_eq_false⟩,
      Stmt.everyIn_agrees statements h.2⟩

end

/-- Every node of the program of a source text agrees with its token, whatever diagnostics there
are. -/
theorem Program.parsed_nodes_agree_with_tokens (source : String) :
    (Program.ofSource source).program.Every Node.Agrees := by
  have hcoherent := Program.ofTokens_coherent Parser.depthLimit source
  constructor
  · intro statement hmem
    exact (hcoherent statement hmem).isBlock_eq_false
  · exact Stmt.everyIn_agrees _ (Stmt.coherentEach_iff.mpr hcoherent)

end MonkeyLang
