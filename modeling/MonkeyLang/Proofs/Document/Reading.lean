import Mathlib.Tactic
import MonkeyLang.Document
import MonkeyLang.Document.Reader
import MonkeyLang.Proofs.Json.Scalars

/-!
# Reading a document gives back the tree it was written for

Every tree is read back from its document, whatever tokens, names, operators and numbers it has:
the class names and field names that writing gives are those that reading looks up, every part
stands in a slot that it fits, and the conversions of reading leave texts, integers and booleans as
they are.

The proof follows the trees. A node is read by looking its token and its parts up in the fields of
its document, so that each case comes down to the parts; `readEach_list` and `readPairs_list` say
the same of the lists of parts. A document that is accepted need not be the one that writing gives,
but writing the tree that was read gives one that is read the same.
-/

set_option autoImplicit false

namespace MonkeyLang.Document

/-! ### Fields -/

theorem origin?_document (origin : Origin) : origin? origin.document = some origin := by
  simp [Origin.document, origin?, Entries.get?, Kind.ofName?_name]

/-- A node's document gives the token of the node. -/
@[simp] theorem readOrigin_node (className : Json) (origin : Origin)
    (parts : List (String × Json)) :
    readOrigin (("type", className) :: ("token", origin.document) :: parts) = .ok origin := by
  simp [readOrigin, Entries.get?, origin?_document]

theorem read_object (fields : List (String × Json)) :
    read (.object fields) = (readObject fields >>= fun node ↦ .ok (some node)) := by
  rw [read]
  rfl

theorem read_node (className : String) (origin : Origin) (parts : List (String × Json)) :
    read (nodeDocument className origin parts) =
      (readObject (("type", .string className) :: ("token", origin.document) :: parts) >>=
        fun node ↦ .ok (some node)) :=
  read_object _

/-! ### Slots -/

@[simp] theorem take_statement (label : String) (tree : Stmt) :
    (statementSlot label).take (some (.statement tree)) = .ok tree :=
  rfl

@[simp] theorem take_block (label : String) (body : Block) :
    (blockSlot label).take (some (.statement (.block body))) = .ok body :=
  rfl

@[simp] theorem take_expression (label : String) (tree : Expr) :
    (expressionSlot label).take (some (.expression tree)) = .ok tree :=
  rfl

@[simp] theorem take_identifier (label : String) (name : Identifier) :
    (identifierSlot label).take (some (.expression (.identifier name))) = .ok name :=
  rfl

/-! ### Lists of parts -/

/-- A list is read item by item, as if its items were not known to be in it. -/
theorem mapM_attach {α : Type} (readItem : Json → Except Fault α) (items : List Json) :
    (items.attach.mapM fun item ↦ readItem item.1) = items.mapM readItem := by
  rw [List.mapM_subtype fun item hitem ↦ rfl, List.unattach_attach]

theorem readEach_list {α : Type} (slot : Slot α) (items : List Json) :
    readEach slot (.list items) = items.mapM fun item ↦ read item >>= slot.take := by
  rw [readEach]
  exact mapM_attach (fun item ↦ read item >>= slot.take) items

theorem readPairs_list (items : List Json) : readPairs (.list items) = items.mapM readPair := by
  rw [readPairs]
  exact mapM_attach readPair items

theorem readEach_nil {α : Type} (slot : Slot α) : readEach slot (.list []) = .ok [] := by
  rw [readEach_list]
  rfl

theorem readEach_cons {α : Type} {slot : Slot α} {item : Json} {rest : List Json}
    {found : Option Node} {part : α} {parts : List α} (hitem : read item = .ok found)
    (hpart : slot.take found = .ok part) (hrest : readEach slot (.list rest) = .ok parts) :
    readEach slot (.list (item :: rest)) = .ok (part :: parts) := by
  rw [readEach_list] at hrest ⊢
  rw [List.mapM_cons, hrest, hitem]
  show ((slot.take found >>= fun part ↦ .ok (part :: parts) : Except Fault (List α))) = _
  rw [hpart]
  rfl

theorem readPairs_cons {key value : Json} {rest : List Json} {first second : Expr}
    {pairs : List (Expr × Expr)} (hkey : read key = .ok (some (.expression first)))
    (hvalue : read value = .ok (some (.expression second)))
    (hrest : readPairs (.list rest) = .ok pairs) :
    readPairs (.list (.list [key, value] :: rest)) = .ok ((first, second) :: pairs) := by
  have hpair : readPair (.list [key, value]) = .ok (first, second) := by
    rw [readPair, hkey, hvalue]
    rfl
  rw [readPairs_list] at hrest ⊢
  rw [List.mapM_cons, hpair, hrest]
  rfl

/-! ### Trees -/

theorem read_identifier (name : Identifier) :
    read name.document = .ok (some (.expression (.identifier name))) := by
  rw [Identifier.document, read_node, readObject]
  simp [required, Entries.get?, Json.display]

theorem readEach_identifiers (label : String) (names : List Identifier) :
    readEach (identifierSlot label) (.list (names.map Identifier.document)) = .ok names := by
  induction names with
  | nil => exact readEach_nil _
  | cons name rest ih => exact readEach_cons (read_identifier name) rfl ih

theorem exists_document_block : (body : Block) → ∃ fields, body.document = .object fields
  | .mk _ _ => ⟨_, by rw [Block.document, nodeDocument]⟩

mutual

theorem read_expression : (tree : Expr) → read tree.document = .ok (some (.expression tree))
  | .identifier name => by
    rw [Expr.document]
    exact read_identifier name
  | .integer origin value => by
    rw [Expr.document, read_node, readObject]
    simp [required, Entries.get?, readInteger]
  | .boolean origin value => by
    rw [Expr.document, read_node, readObject]
    simp [required, Entries.get?, Json.truthy]
  | .string origin value => by
    rw [Expr.document, read_node, readObject]
    simp [required, Entries.get?, Json.display]
  | .unary origin operator right => by
    have hright := read_expression right
    rw [Expr.document, read_node, readObject]
    simp [required, Entries.get?, Json.display, hright]
  | .binary origin left operator right => by
    have hleft := read_expression left
    have hright := read_expression right
    rw [Expr.document, read_node, readObject]
    simp [required, Entries.get?, Json.display, hleft, hright]
  | .conditional origin condition consequence none => by
    have hcondition := read_expression condition
    have hconsequence := read_block consequence
    rw [Expr.document, read_node, readObject]
    simp [required, Entries.get?, hcondition, hconsequence]
  | .conditional origin condition consequence (some alternative) => by
    have hcondition := read_expression condition
    have hconsequence := read_block consequence
    have halternative := read_block alternative
    -- The alternative is told from a missing one by being an object.
    obtain ⟨fields, hfields⟩ := exists_document_block alternative
    rw [hfields] at halternative
    rw [Expr.document, hfields, read_node, readObject]
    simp [required, Entries.get?, hcondition, hconsequence, halternative]
  | .function origin parameters body => by
    have hbody := read_block body
    rw [Expr.document, read_node, readObject]
    simp [required, Entries.get?, readEach_identifiers, hbody]
  | .call origin callee arguments => by
    have hcallee := read_expression callee
    have harguments := readEach_expressions "argument" arguments
    rw [Expr.document, read_node, readObject]
    simp [required, Entries.get?, hcallee, harguments]
  | .array origin elements => by
    have helements := readEach_expressions "array element" elements
    rw [Expr.document, read_node, readObject]
    simp [required, Entries.get?, helements]
  | .index origin left place => by
    have hleft := read_expression left
    have hplace := read_expression place
    rw [Expr.document, read_node, readObject]
    simp [required, Entries.get?, hleft, hplace]
  | .hash origin pairs => by
    have hpairs := readPairs_expressions pairs
    rw [Expr.document, read_node, readObject]
    simp [required, Entries.get?, hpairs]

theorem readEach_expressions (label : String) : (trees : List Expr) →
    readEach (expressionSlot label) (.list (Expr.documents trees)) = .ok trees
  | [] => by
    rw [Expr.documents]
    exact readEach_nil _
  | tree :: rest => by
    rw [Expr.documents]
    exact readEach_cons (read_expression tree) rfl (readEach_expressions label rest)

theorem readPairs_expressions : (pairs : List (Expr × Expr)) →
    readPairs (.list (Expr.pairDocuments pairs)) = .ok pairs
  | [] => by
    rw [Expr.pairDocuments, readPairs_list]
    rfl
  | (key, value) :: rest => by
    rw [Expr.pairDocuments]
    exact readPairs_cons (read_expression key) (read_expression value) (readPairs_expressions rest)

theorem read_statement : (tree : Stmt) → read tree.document = .ok (some (.statement tree))
  | .binding origin name value => by
    have hname := read_identifier name
    have hvalue := read_expression value
    rw [Stmt.document, read_node, readObject]
    simp [required, Entries.get?, hname, hvalue]
  | .returning origin value => by
    have hvalue := read_expression value
    rw [Stmt.document, read_node, readObject]
    simp [required, Entries.get?, hvalue]
  | .expression origin tree => by
    have htree := read_expression tree
    rw [Stmt.document, read_node, readObject]
    simp [required, Entries.get?, htree]
  | .block body => by
    rw [Stmt.document]
    exact read_block body

theorem readEach_statements (label : String) : (trees : List Stmt) →
    readEach (statementSlot label) (.list (Stmt.documents trees)) = .ok trees
  | [] => by
    rw [Stmt.documents]
    exact readEach_nil _
  | tree :: rest => by
    rw [Stmt.documents]
    exact readEach_cons (read_statement tree) rfl (readEach_statements label rest)

theorem read_block : (body : Block) → read body.document = .ok (some (.statement (.block body)))
  | .mk origin statements => by
    have hstatements := readEach_statements "statement" statements
    rw [Block.document, read_node, readObject]
    simp [required, Entries.get?, hstatements]

end

theorem read_program (program : Program) :
    read program.document = .ok (some (.program program)) := by
  have hstatements := readEach_statements "statement" program.statements
  rw [Program.document, read_object, readObject]
  simp [required, Entries.get?, hstatements]

theorem readProgram_document (program : Program) : readProgram program.document = .ok program := by
  rw [readProgram, read_program]
  rfl

/-- The document of a node, and `null` for none. -/
def write : Option Node → Json
  | none => .null
  | some node => node.document

/-- Every node is read back from its document, a program also as a whole document, and so is what
was read from any document that is accepted. -/
theorem reading_undoes_writing :
    (∀ node : Node, read node.document = .ok (some node)) ∧
      (∀ program : Program, readProgram program.document = .ok program) ∧
      ∀ (document : Json) (found : Option Node), read document = .ok found →
        read (write found) = .ok found := by
  have hnode (node : Node) : read node.document = .ok (some node) := by
    cases node with
    | program tree => exact read_program tree
    | statement tree => exact read_statement tree
    | expression tree => exact read_expression tree
  refine ⟨hnode, readProgram_document, fun document found _ ↦ ?_⟩
  cases found with
  | none => rw [write, read]
  | some node => exact hnode node

/-- A number given by a truth value, behind a field that no node has, is written as a number. -/
theorem reading_undoes_writing_of_truth_value :
    ∃ document found, read document = .ok (some found) ∧ found.document ≠ document ∧
      read found.document = .ok (some found) := by
  have hread : read (.object [("line", .integer 3), ("type", .string "IntegerLiteral"),
      ("value", .boolean true), ("token", (Origin.mk .integer .null).document)]) =
        .ok (some (.expression (.integer ⟨.integer, .null⟩ 1))) := by
    rw [read_object, readObject]
    simp [required, Entries.get?, readOrigin, origin?_document, readInteger]
  refine ⟨_, _, hread, ?_, reading_undoes_writing.2.2 _ _ hread⟩
  simp [Node.document, Expr.document, nodeDocument]

end MonkeyLang.Document
