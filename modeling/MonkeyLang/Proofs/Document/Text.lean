import Mathlib.Tactic
import MonkeyLang.Proofs.Document.Reading
import MonkeyLang.Proofs.Json.RoundTrip
import MonkeyLang.Proofs.Parser.Coherence

/-!
# The text of a program's document

The document of a parsed program is legible: its tokens have texts, its integers are not negative
and fit into 64 bits, and the names of the parts of a node are distinct. So the program is read back
from the text of its document.
-/

set_option autoImplicit false

namespace MonkeyLang

open Json (LegibleItems LegibleFields)

/-! ### Integers -/

theorem legible_integer {literal : String} {value : Int}
    (hlexed : Token.Lexed .unicode ⟨.integer, literal⟩)
    (hread : Text.Numeral.read literal = .ok value) (hmax : value ≤ int64Max) :
    (Json.integer value).Legible := by
  have hnonneg := hlexed.read_nonneg hread
  have hlt : value.natAbs < 10 ^ 19 := by
    rw [int64Max] at hmax
    omega
  rw [Json.Legible]
  exact ((Nat.length_toDigits_le_iff (by decide) (by decide)).mpr hlt).trans (by decide)

/-! ### Nodes -/

theorem legible_node {className : String} {origin : Origin} {parts : List (String × Json)}
    (horigin : ∃ token : Token, origin = token.origin)
    (hnames : ("type" :: "token" :: parts.map Prod.fst).Nodup) (hparts : LegibleFields parts) :
    (nodeDocument className origin parts).Legible := by
  obtain ⟨token, rfl⟩ := horigin
  have hfields : ["kind", "literal"].Nodup := by decide
  exact ⟨hnames, trivial, ⟨hfields, trivial, trivial, trivial⟩, hparts⟩

theorem Identifier.legible_document {name : Identifier} (h : name.Coherent) :
    name.document.Legible :=
  legible_node ⟨_, h.1⟩ (show ["type", "token", "value"].Nodup by decide) ⟨trivial, trivial⟩

theorem Identifier.legible_documents {names : List Identifier} (h : ∀ name ∈ names, name.Coherent) :
    LegibleItems (names.map Identifier.document) := by
  induction names with
  | nil => trivial
  | cons name names ih =>
    obtain ⟨hname, hnames⟩ := List.forall_mem_cons.mp h
    exact ⟨Identifier.legible_document hname, ih hnames⟩

mutual

theorem Expr.legible_document : (tree : Expr) → tree.Coherent → tree.document.Legible
  | .identifier name, h => by
    rw [Expr.Coherent] at h
    exact Identifier.legible_document h
  | .integer origin value, h => by
    obtain ⟨literal, horigin, hlexed, hread, hmax⟩ := h
    exact legible_node ⟨_, horigin⟩ (show ["type", "token", "value"].Nodup by decide)
      ⟨legible_integer hlexed hread hmax, trivial⟩
  | .boolean origin value, h =>
    legible_node ⟨_, h⟩ (show ["type", "token", "value"].Nodup by decide) ⟨trivial, trivial⟩
  | .string origin value, h =>
    legible_node ⟨_, h.1⟩ (show ["type", "token", "value"].Nodup by decide) ⟨trivial, trivial⟩
  | .unary origin operator right, h => by
    obtain ⟨⟨kind, -, horigin, -⟩, hright⟩ := h
    exact legible_node ⟨_, horigin⟩ (show ["type", "token", "operator", "right"].Nodup by decide)
      ⟨trivial, right.legible_document hright, trivial⟩
  | .binary origin left operator right, h => by
    obtain ⟨⟨kind, -, horigin, -⟩, hleft, hright⟩ := h
    exact legible_node ⟨_, horigin⟩
      (show ["type", "token", "left", "operator", "right"].Nodup by decide)
      ⟨left.legible_document hleft, trivial, right.legible_document hright, trivial⟩
  | .conditional origin condition consequence none, h => by
    obtain ⟨horigin, hcondition, hconsequence⟩ := h
    exact legible_node ⟨_, horigin⟩
      (show ["type", "token", "condition", "consequence", "alternative"].Nodup by decide)
      ⟨condition.legible_document hcondition, consequence.legible_document hconsequence,
        trivial, trivial⟩
  | .conditional origin condition consequence (some alternative), h => by
    obtain ⟨horigin, hcondition, hconsequence, halternative⟩ := h
    exact legible_node ⟨_, horigin⟩
      (show ["type", "token", "condition", "consequence", "alternative"].Nodup by decide)
      ⟨condition.legible_document hcondition, consequence.legible_document hconsequence,
        alternative.legible_document halternative, trivial⟩
  | .function origin parameters body, h => by
    obtain ⟨horigin, hnames, hbody⟩ := h
    exact legible_node ⟨_, horigin⟩ (show ["type", "token", "parameters", "body"].Nodup by decide)
      ⟨Identifier.legible_documents hnames, body.legible_document hbody, trivial⟩
  | .call origin callee arguments, h => by
    obtain ⟨horigin, hcallee, harguments⟩ := h
    exact legible_node ⟨_, horigin⟩
      (show ["type", "token", "function", "arguments"].Nodup by decide)
      ⟨callee.legible_document hcallee, Expr.legible_documents arguments harguments, trivial⟩
  | .array origin elements, h =>
    legible_node ⟨_, h.1⟩ (show ["type", "token", "elements"].Nodup by decide)
      ⟨Expr.legible_documents elements h.2, trivial⟩
  | .index origin left place, h => by
    obtain ⟨horigin, hleft, hplace⟩ := h
    exact legible_node ⟨_, horigin⟩ (show ["type", "token", "left", "index"].Nodup by decide)
      ⟨left.legible_document hleft, place.legible_document hplace, trivial⟩
  | .hash origin pairs, h =>
    legible_node ⟨_, h.1⟩ (show ["type", "token", "pairs"].Nodup by decide)
      ⟨Expr.legible_pairDocuments pairs h.2, trivial⟩

theorem Expr.legible_documents : (trees : List Expr) → Expr.CoherentEach trees →
    LegibleItems (Expr.documents trees)
  | [], _ => trivial
  | tree :: rest, h => ⟨tree.legible_document h.1, Expr.legible_documents rest h.2⟩

theorem Expr.legible_pairDocuments : (pairs : List (Expr × Expr)) → Expr.CoherentPairs pairs →
    LegibleItems (Expr.pairDocuments pairs)
  | [], _ => trivial
  | (key, value) :: rest, h =>
    ⟨⟨key.legible_document h.1, value.legible_document h.2.1, trivial⟩,
      Expr.legible_pairDocuments rest h.2.2⟩

theorem Stmt.legible_document : (tree : Stmt) → tree.Coherent → tree.document.Legible
  | .binding origin name value, h => by
    obtain ⟨horigin, hname, hvalue⟩ := h
    exact legible_node ⟨_, horigin⟩ (show ["type", "token", "name", "value"].Nodup by decide)
      ⟨Identifier.legible_document hname, value.legible_document hvalue, trivial⟩
  | .returning origin value, h =>
    legible_node ⟨_, h.1⟩ (show ["type", "token", "return_value"].Nodup by decide)
      ⟨value.legible_document h.2, trivial⟩
  | .expression origin tree, h =>
    legible_node h.1 (show ["type", "token", "expression"].Nodup by decide)
      ⟨tree.legible_document h.2, trivial⟩
  | .block body, h => h.elim

theorem Stmt.legible_documents : (trees : List Stmt) → Stmt.CoherentEach trees →
    LegibleItems (Stmt.documents trees)
  | [], _ => trivial
  | tree :: rest, h => ⟨tree.legible_document h.1, Stmt.legible_documents rest h.2⟩

theorem Block.legible_document : (tree : Block) → tree.Coherent → tree.document.Legible
  | .mk origin statements, h =>
    legible_node ⟨_, h.1⟩ (show ["type", "token", "statements"].Nodup by decide)
      ⟨Stmt.legible_documents statements h.2, trivial⟩

end

/-- The document of a source text's program can be read back from its text. -/
theorem Program.legible_document (source : String) :
    (Program.ofSource source).program.document.Legible := by
  have hnames : ["type", "statements"].Nodup := by decide
  have hcoherent := Program.ofTokens_coherent Parser.depthLimit source
  exact ⟨hnames, trivial, Stmt.legible_documents _ (Stmt.coherentEach_iff.mpr hcoherent), trivial⟩

end MonkeyLang
