import MonkeyLang.Json.Reader
import MonkeyLang.Proofs.Document.Reading

/-!
# Which documents are read

The schema of documents as data: `schema` gives the fields of each of the seventeen classes, `Part`
says what a field holds, and `Conforms` and `Fits` say when a document is an object of a class and
when a field holds what it should. They look fields up by name and know nothing of reading.

Reading accepts exactly the documents that conform, and `null` for none. The proof is a judgement on
results, `Reads`: under which condition there is a result, what it has, and what is to blame for the
one fault that is not about the format. The judgement is kept by going on with a result
(`Reads.bind`), so that each class follows from its fields, and the documents are covered by
induction on their size.

The fault apart is that of an infinite number in the place of an integer. It is the only one by
which a document that does not conform can fail otherwise than for its format, and it does occur.
-/

set_option autoImplicit false

namespace MonkeyLang.Document

/-! ### The schema -/

/-- The classes that a place for a node can ask for. -/
inductive Category
  | statement
  | block
  | expression
  | identifier

def Category.classNames : Category → List String
  | .statement => ["LetStatement", "ReturnStatement", "ExpressionStatement", "BlockStatement"]
  | .block => ["BlockStatement"]
  | .expression =>
    ["Identifier", "IntegerLiteral", "BooleanLiteral", "StringLiteral", "PrefixExpression",
      "InfixExpression", "IfExpression", "FunctionLiteral", "CallExpression", "ArrayLiteral",
      "IndexExpression", "HashLiteral"]
  | .identifier => ["Identifier"]

/-- What a field holds. -/
inductive Part
  | token
  | anything
  | integer
  | child (category : Category)
  | optional (part : Part)
  | list (item : Part)
  | pair (item : Part)

/-- The fields of the objects of a class. -/
def schema : String → Option (List (String × Part))
  | "Program" => some [("statements", .list (.child .statement))]
  | "LetStatement" =>
    some [("token", .token), ("name", .child .identifier), ("value", .child .expression)]
  | "ReturnStatement" => some [("token", .token), ("return_value", .child .expression)]
  | "ExpressionStatement" => some [("token", .token), ("expression", .child .expression)]
  | "BlockStatement" => some [("token", .token), ("statements", .list (.child .statement))]
  | "Identifier" => some [("token", .token), ("value", .anything)]
  | "IntegerLiteral" => some [("token", .token), ("value", .integer)]
  | "BooleanLiteral" => some [("token", .token), ("value", .anything)]
  | "StringLiteral" => some [("token", .token), ("value", .anything)]
  | "PrefixExpression" =>
    some [("token", .token), ("operator", .anything), ("right", .child .expression)]
  | "InfixExpression" =>
    some [("token", .token), ("left", .child .expression), ("operator", .anything),
      ("right", .child .expression)]
  | "IfExpression" =>
    some [("token", .token), ("condition", .child .expression), ("consequence", .child .block),
      ("alternative", .optional (.child .block))]
  | "FunctionLiteral" =>
    some [("token", .token), ("parameters", .list (.child .identifier)), ("body", .child .block)]
  | "CallExpression" =>
    some [("token", .token), ("function", .child .expression),
      ("arguments", .list (.child .expression))]
  | "ArrayLiteral" => some [("token", .token), ("elements", .list (.child .expression))]
  | "IndexExpression" =>
    some [("token", .token), ("left", .child .expression), ("index", .child .expression)]
  | "HashLiteral" => some [("token", .token), ("pairs", .list (.pair (.child .expression)))]
  | _ => none

/-- Whether objects of the class have a field of the name. -/
def isField (className name : String) : Bool :=
  ((schema className).getD []).any (·.1 = name)

/-- Whether there are nodes in what a field holds. -/
def Part.hasNodes : Part → Bool
  | .child _ => true
  | .optional part | .list part | .pair part => part.hasNodes
  | .token | .anything | .integer => false

/-- Whether objects of the class have nodes in the field of the name. -/
def isNodeField (className name : String) : Bool :=
  ((schema className).getD []).any fun field ↦ field.1 = name && field.2.hasNodes

/-- The values that stand for an integer. -/
inductive Integral : Json → Prop
  | integer (value : Int) : Integral (.integer value)
  | boolean (value : Bool) : Integral (.boolean value)
  | finite (negative : Bool) (mantissa : Nat) (exponent : Int) :
    Integral (.real (.finite negative mantissa exponent))
  | numeral {text : String} {value : Int} :
    Text.Numeral.read text = .ok value → Integral (.string text)

/-- The items that a value is taken apart into: those of a list, the characters of a text, the names
of an object. -/
def unpacked : Json → Option (List Json)
  | .list items => some items
  | .string text => some (text.toList.map fun c ↦ .string (.singleton c))
  | .object fields => some (fields.map fun field ↦ .string field.1)
  | _ => none

mutual

/-- The document is an object of the class. -/
inductive Conforms : Json → String → Prop
  | object {fields : List (String × Json)} {className : String} {parts : List (String × Part)} :
    Entries.get? fields "type" = some (.string className) → schema className = some parts →
      (∀ part ∈ parts, Fits part.2 (Entries.get? fields part.1)) →
        Conforms (.object fields) className

/-- The value, if there is one, is what the field holds. -/
inductive Fits : Part → Option Json → Prop
  | token {fields : List (String × Json)} {literal : Json} (kind : Kind) :
    Entries.get? fields "kind" = some (.string kind.name) →
      Entries.get? fields "literal" = some literal → Fits .token (some (.object fields))
  | anything (value : Json) : Fits .anything (some value)
  | integer {value : Json} : Integral value → Fits .integer (some value)
  | child {category : Category} {document : Json} {className : String} :
    Conforms document className → className ∈ category.classNames →
      Fits (.child category) (some document)
  | missing (part : Part) : Fits (.optional part) none
  | null (part : Part) : Fits (.optional part) (some .null)
  | present {part : Part} {value : Json} :
    Fits part (some value) → Fits (.optional part) (some value)
  | list {part : Part} {items : List Json} :
    (∀ item ∈ items, Fits part (some item)) → Fits (.list part) (some (.list items))
  | pair {part : Part} {value first second : Json} :
    unpacked value = some [first, second] → Fits part (some first) → Fits part (some second) →
      Fits (.pair part) (some value)

end

/-- Somewhere among the nodes of the document one that is to be an integer has an infinite value. -/
inductive HoldsInfinite : Json → Prop
  | here {fields : List (String × Json)} {negative : Bool} :
    Entries.get? fields "type" = some (.string "IntegerLiteral") →
      Entries.get? fields "value" = some (.real (.infinity negative)) →
        HoldsInfinite (.object fields)
  | field {fields : List (String × Json)} {className name : String} {value : Json} :
    Entries.get? fields "type" = some (.string className) → isNodeField className name →
      Entries.get? fields name = some value → HoldsInfinite value →
        HoldsInfinite (.object fields)
  | item {items : List Json} {item : Json} :
    item ∈ items → HoldsInfinite item → HoldsInfinite (.list items)

theorem Conforms.exists_object {document : Json} {className : String}
    (h : Conforms document className) :
    ∃ fields, document = .object fields ∧
      Entries.get? fields "type" = some (.string className) := by
  cases h with
  | object htype => exact ⟨_, rfl, htype⟩

theorem Conforms.className_eq {document : Json} {className other : String}
    (h : Conforms document className) (hother : Conforms document other) : className = other := by
  obtain ⟨fields, rfl, htype⟩ := h.exists_object
  obtain ⟨fields', heq, htype'⟩ := hother.exists_object
  cases heq
  rw [htype] at htype'
  simpa using htype'

/-! ### Judging results -/

/-- There is a result exactly under the condition, it has the property, and if the fault is that of
an infinite number then the blame is right. -/
structure Reads {α : Type} (result : Except Fault α) (condition : Prop) (property : α → Prop)
    (blame : Prop) : Prop where
  exists_ok_iff : (∃ value, result = .ok value) ↔ condition
  property_of_ok : ∀ value, result = .ok value → property value
  blame_of_infinite : result = .error .infinite → blame

namespace Reads

variable {α β : Type} {condition condition' blame blame' : Prop}

theorem accept {value : α} {property : α → Prop} (hcondition : condition)
    (hproperty : property value) : Reads (.ok value) condition property blame where
  exists_ok_iff := ⟨fun _ ↦ hcondition, fun _ ↦ ⟨value, rfl⟩⟩
  property_of_ok := by
    rintro _ ⟨⟩
    exact hproperty
  blame_of_infinite := by rintro ⟨⟩

theorem ok {value : α} {property : α → Prop} (hproperty : property value) :
    Reads (.ok value) True property blame :=
  accept trivial hproperty

theorem error {fault : Fault} {property : α → Prop} (hcondition : ¬ condition)
    (hblame : fault = .infinite → blame) :
    Reads (.error fault : Except Fault α) condition property blame where
  exists_ok_iff := by
    refine ⟨?_, fun h ↦ absurd h hcondition⟩
    rintro ⟨_, ⟨⟩⟩
  property_of_ok := by rintro _ ⟨⟩
  blame_of_infinite := by
    rintro ⟨⟩
    exact hblame rfl

theorem refuse {fault : Fault} {property : α → Prop} (hcondition : ¬ condition)
    (hfault : fault ≠ .infinite) :
    Reads (.error fault : Except Fault α) condition property blame :=
  error hcondition fun heq ↦ absurd heq hfault

theorem bind {first : Except Fault α} {next : α → Except Fault β} {property : α → Prop}
    {property' : β → Prop} (hfirst : Reads first condition property blame)
    (hnext : ∀ value, property value → Reads (next value) condition' property' blame) :
    Reads (first >>= next) (condition ∧ condition') property' blame := by
  cases first with
  | error fault =>
    refine error ?_ fun heq ↦ hfirst.blame_of_infinite (congrArg _ heq)
    rintro ⟨hcondition, -⟩
    obtain ⟨value, hvalue⟩ := hfirst.exists_ok_iff.mpr hcondition
    cases hvalue
  | ok value =>
    have hrest := hnext value (hfirst.property_of_ok value rfl)
    have hcondition : condition := hfirst.exists_ok_iff.mp ⟨value, rfl⟩
    rw [ok_bind]
    exact ⟨hrest.exists_ok_iff.trans (and_iff_right hcondition).symm, hrest.property_of_ok,
      hrest.blame_of_infinite⟩

theorem imp {result : Except Fault α} {property : α → Prop}
    (h : Reads result condition property blame) (hcondition : condition ↔ condition')
    (hblame : blame → blame') : Reads result condition' property blame' :=
  ⟨h.exists_ok_iff.trans hcondition, h.property_of_ok, hblame ∘ h.blame_of_infinite⟩

/-- A list is read if its items are. -/
theorem mapM {readItem : Json → Except Fault α} {fits : Json → Prop} {items : List Json}
    (h : ∀ item ∈ items, Reads (readItem item) (fits item) (fun _ ↦ True) blame) :
    Reads (items.mapM readItem) (∀ item ∈ items, fits item) (fun _ ↦ True) blame := by
  induction items with
  | nil => exact accept (by simp) trivial
  | cons item rest ih =>
    rw [List.mapM_cons]
    have hrest := ih fun other hother ↦ h other (.tail _ hother)
    have hitem := h item (.head _)
    refine (hitem.bind fun first _ ↦ hrest.bind fun others _ ↦ ok trivial).imp ?_ id
    rw [and_true, List.forall_mem_cons]

end Reads

/-! ### Nodes in their places -/

/-- A document is read exactly if it conforms or is `null`, as a node of its class or as none. -/
def ReadsNode (document : Json) : Prop :=
  Reads (read document) (document = .null ∨ ∃ className, Conforms document className)
    (fun found ↦
      match found with
      | none => document = .null
      | some node => Conforms document node.className)
    (HoldsInfinite document)

/-- Whether the nodes that fit the slot are those of the classes of the category. -/
def Slot.Admits {α : Type} (slot : Slot α) (category : Category) : Prop :=
  ∀ node, (slot.select node).isSome ↔ node.className ∈ category.classNames

theorem admits_statement (label : String) : (statementSlot label).Admits .statement := by
  rintro (tree | tree | tree) <;> cases tree <;>
    simp [statementSlot, Category.classNames, Node.className, Stmt.className, Expr.className]

theorem admits_block (label : String) : (blockSlot label).Admits .block := by
  rintro (tree | tree | tree) <;> cases tree <;>
    simp [blockSlot, Category.classNames, Node.className, Stmt.className, Expr.className]

theorem admits_expression (label : String) : (expressionSlot label).Admits .expression := by
  rintro (tree | tree | tree) <;> cases tree <;>
    simp [expressionSlot, Category.classNames, Node.className, Stmt.className, Expr.className]

theorem admits_identifier (label : String) : (identifierSlot label).Admits .identifier := by
  rintro (tree | tree | tree) <;> cases tree <;>
    simp [identifierSlot, Category.classNames, Node.className, Stmt.className, Expr.className]

section Slots

variable {α : Type} {slot : Slot α} {category : Category} {document : Json}

theorem fits_child_iff : Fits (.child category) (some document) ↔
    ∃ className, Conforms document className ∧ className ∈ category.classNames := by
  constructor
  · intro h
    cases h with
    | child hconforms hmem => exact ⟨_, hconforms, hmem⟩
  · rintro ⟨className, hconforms, hmem⟩
    exact .child hconforms hmem

theorem reads_take {node : Node} (hslot : slot.Admits category)
    (hconforms : Conforms document node.className) {blame : Prop} :
    Reads (slot.take (some node)) (Fits (.child category) (some document)) (fun _ ↦ True)
      blame := by
  have hfits : Fits (.child category) (some document) ↔ (slot.select node).isSome := by
    rw [fits_child_iff, hslot]
    constructor
    · rintro ⟨className, hconforms', hmem⟩
      rwa [hconforms.className_eq hconforms']
    · exact fun hmem ↦ ⟨_, hconforms, hmem⟩
  rw [Slot.take, Option.bind_some]
  cases hselect : slot.select node with
  | none =>
    rw [hselect] at hfits
    exact .refuse (by simp [hfits]) (by simp)
  | some part =>
    rw [hselect] at hfits
    exact .accept (hfits.mpr rfl) trivial

theorem ReadsNode.take (hnode : ReadsNode document) (hslot : slot.Admits category) :
    Reads (read document >>= slot.take) (Fits (.child category) (some document)) (fun _ ↦ True)
      (HoldsInfinite document) := by
  refine Reads.imp (Reads.bind hnode fun found hfound ↦ ?_) (and_iff_right_of_imp ?_) id
  · cases found with
    | none =>
      have hnull : document = .null := hfound
      refine .refuse ?_ (by simp)
      rw [hnull, fits_child_iff]
      rintro ⟨className, ⟨⟩, -⟩
    | some node => exact reads_take hslot hfound
  · rw [fits_child_iff]
    rintro ⟨className, hconforms, -⟩
    exact .inr ⟨className, hconforms⟩

theorem ReadsNode.take_bind {β : Type} {next : α → Except Fault β} {condition blame : Prop}
    {property : β → Prop} (hnode : ReadsNode document) (hslot : slot.Admits category)
    (hblame : HoldsInfinite document → blame)
    (hnext : ∀ part, Reads (next part) condition property blame) :
    Reads (read document >>= fun found ↦ slot.take found >>= next)
      (Fits (.child category) (some document) ∧ condition) property blame := by
  have hboth := ((hnode.take hslot).imp Iff.rfl hblame).bind fun part _ ↦ hnext part
  rwa [bind_assoc] at hboth

end Slots

/-! ### Fields -/

section Fields

variable {α β : Type} {fields : List (String × Json)} {className name : String} {part : Part}
  {condition : Prop} {property : β → Prop}

/-- The documents in the fields are read as they should be. -/
def ReadsInside (fields : List (String × Json)) : Prop :=
  ∀ document, sizeOf document < sizeOf fields → ReadsNode document

/-- The documents in the fields are read as they should be, and what is infinite among the nodes of
a field is so among those of the object. -/
structure ReadsFields (fields : List (String × Json)) (className : String) : Prop where
  inside : ReadsInside fields
  blame : ∀ {name value}, isNodeField className name → Entries.get? fields name = some value →
    HoldsInfinite value → HoldsInfinite (.object fields)

theorem reads_required {next : {value : Json // sizeOf value < sizeOf fields} → Except Fault β}
    {blame : Prop} (hpart : ¬ Fits part none)
    (hnext : ∀ value hsize, Entries.get? fields name = some value →
      Reads (next ⟨value, hsize⟩) (Fits part (some value) ∧ condition) property blame) :
    Reads (required className fields name >>= next)
      (Fits part (Entries.get? fields name) ∧ condition) property blame := by
  rw [required]
  split
  · rename_i value hvalue
    exact (hnext value _ hvalue).imp (by rw [hvalue]) id
  · rename_i hvalue
    rw [hvalue]
    exact .refuse (fun h ↦ hpart h.1) (by simp)

/-- A field whose value is only kept. -/
theorem reads_anything {next : {value : Json // sizeOf value < sizeOf fields} → Except Fault β}
    {blame : Prop} (hnext : ∀ value, Reads (next value) condition property blame) :
    Reads (required className fields name >>= next)
      (Fits .anything (Entries.get? fields name) ∧ condition) property blame := by
  refine reads_required (by rintro ⟨⟩) fun value hsize _ ↦ (hnext ⟨value, hsize⟩).imp ?_ id
  exact (and_iff_right (.anything value)).symm

/-- A field whose value is read as a part. -/
theorem reads_part {readPart : Json → Except Fault α} {next : α → Except Fault β}
    (hnone : ¬ Fits part none)
    (hpart : ∀ value, sizeOf value < sizeOf fields → Entries.get? fields name = some value →
      Reads (readPart value) (Fits part (some value)) (fun _ ↦ True)
        (HoldsInfinite (.object fields)))
    (hnext : ∀ part, Reads (next part) condition property (HoldsInfinite (.object fields))) :
    Reads (required className fields name >>= fun value ↦ readPart value.1 >>= next)
      (Fits part (Entries.get? fields name) ∧ condition) property
      (HoldsInfinite (.object fields)) :=
  reads_required hnone fun value hsize hvalue ↦
    (hpart value hsize hvalue).bind fun part _ ↦ hnext part

theorem reads_child {slot : Slot α} {category : Category} {next : α → Except Fault β}
    (hfields : ReadsFields fields className) (hfield : isNodeField className name)
    (hslot : slot.Admits category)
    (hnext : ∀ part, Reads (next part) condition property (HoldsInfinite (.object fields))) :
    Reads (required className fields name >>= fun value ↦ read value.1 >>= fun found ↦
        slot.take found >>= next)
      (Fits (.child category) (Entries.get? fields name) ∧ condition) property
      (HoldsInfinite (.object fields)) :=
  reads_required (by rintro ⟨⟩) fun value hsize hvalue ↦
    (hfields.inside value hsize).take_bind hslot (hfields.blame hfield hvalue) hnext

/-- A list is read if its items are, and blames them. -/
theorem reads_list {readItem : Json → Except Fault α} {items : List Json}
    (hitem : ∀ item ∈ items,
      Reads (readItem item) (Fits part (some item)) (fun _ ↦ True) (HoldsInfinite item)) :
    Reads (items.mapM readItem) (Fits (.list part) (some (.list items))) (fun _ ↦ True)
      (HoldsInfinite (.list items)) := by
  have hitems := Reads.mapM fun item hmem ↦
    (hitem item hmem).imp Iff.rfl (HoldsInfinite.item hmem)
  refine hitems.imp ⟨.list, fun h ↦ ?_⟩ id
  cases h with
  | list hfits => exact hfits

theorem reads_notList {value : Json} {label : String}
    (hvalue : ∀ items, value = .list items → False) :
    Reads (.error (.notList label) : Except Fault (List α)) (Fits (.list part) (some value))
      (fun _ ↦ True) (HoldsInfinite value) := by
  refine .refuse (fun h ↦ ?_) (by simp)
  cases h with
  | @list _ items _ => exact hvalue items rfl

theorem sizeOf_item {item : Json} {items : List Json} (hitem : item ∈ items) :
    sizeOf item < sizeOf (Json.list items) := by
  have hlt := List.sizeOf_lt_of_mem hitem
  rw [Json.list.sizeOf_spec]
  omega

theorem reads_each {slot : Slot α} {category : Category} {next : List α → Except Fault β}
    (hfields : ReadsFields fields className) (hfield : isNodeField className name)
    (hslot : slot.Admits category)
    (hnext : ∀ parts, Reads (next parts) condition property (HoldsInfinite (.object fields))) :
    Reads (required className fields name >>= fun value ↦ readEach slot value.1 >>= next)
      (Fits (.list (.child category)) (Entries.get? fields name) ∧ condition) property
      (HoldsInfinite (.object fields)) := by
  refine reads_part (by rintro ⟨⟩) (fun value hsize hvalue ↦ ?_) hnext
  refine Reads.imp ?_ Iff.rfl (hfields.blame hfield hvalue)
  by_cases hlist : ∃ items, value = .list items
  · obtain ⟨items, rfl⟩ := hlist
    rw [readEach_list]
    exact reads_list fun item hitem ↦
      (hfields.inside item ((sizeOf_item hitem).trans hsize)).take hslot
  · have hnot : ∀ items, value = .list items → False := fun items heq ↦ hlist ⟨items, heq⟩
    rw [readEach]
    · exact reads_notList hnot
    · exact hnot

theorem notPair_ne_infinite (className : String) (document : Json) :
    notPair className document ≠ .infinite := by
  have hcount (count : Nat) : pairFault className count ≠ .infinite := by
    unfold pairFault
    split_ifs <;> simp
  cases document with
  | list | string | object => exact hcount _
  | null | boolean | integer | real => simp [notPair]

/-- A pair of nodes is a list of two: the items of other values are texts. -/
theorem exists_list_of_fits_pair {category : Category} {document : Json}
    (h : Fits (.pair (.child category)) (some document)) :
    ∃ first second, document = .list [first, second] ∧ Fits (.child category) (some first) ∧
      Fits (.child category) (some second) := by
  cases h with
  | @pair _ _ first second hunpacked hfirst hsecond =>
    obtain ⟨_, hconforms, -⟩ := fits_child_iff.mp hfirst
    obtain ⟨fields, rfl, -⟩ := hconforms.exists_object
    cases document with
    | list items =>
      obtain rfl := Option.some.inj hunpacked
      exact ⟨_, _, rfl, hfirst, hsecond⟩
    | string text | object entries =>
      have hmem := congrArg List.head? (Option.some.inj hunpacked)
      simp at hmem
    | null | boolean | integer | real => cases hunpacked

theorem reads_pair {document : Json}
    (hinside : ∀ item, sizeOf item < sizeOf document → ReadsNode item) :
    Reads (readPair document) (Fits (.pair (.child .expression)) (some document)) (fun _ ↦ True)
      (HoldsInfinite document) := by
  rw [readPair.eq_def]
  split
  · rename_i key value
    have hkey : key ∈ [key, value] := .head _
    have hvalue : value ∈ [key, value] := .tail _ (.head _)
    have hfits : Fits (.child .expression) (some key) ∧
        Fits (.child .expression) (some value) ∧ True ↔
          Fits (.pair (.child .expression)) (some (.list [key, value])) := by
      constructor
      · rintro ⟨hfirst, hsecond, -⟩
        exact .pair rfl hfirst hsecond
      · intro h
        obtain ⟨first, second, heq, hfirst, hsecond⟩ := exists_list_of_fits_pair h
        cases heq
        exact ⟨hfirst, hsecond, trivial⟩
    refine Reads.imp ?_ hfits id
    exact (hinside key (sizeOf_item hkey)).take_bind (admits_expression _) (.item hkey)
      fun _ ↦ (hinside value (sizeOf_item hvalue)).take_bind (admits_expression _)
        (.item hvalue) fun _ ↦ .ok trivial
  · rename_i hnot
    refine .refuse (fun h ↦ ?_) (notPair_ne_infinite _ _)
    obtain ⟨first, second, heq, -, -⟩ := exists_list_of_fits_pair h
    exact hnot first second heq

theorem reads_pairs {next : List (Expr × Expr) → Except Fault β}
    (hfields : ReadsFields fields className) (hfield : isNodeField className name)
    (hnext : ∀ pairs, Reads (next pairs) condition property (HoldsInfinite (.object fields))) :
    Reads (required className fields name >>= fun value ↦ readPairs value.1 >>= next)
      (Fits (.list (.pair (.child .expression))) (Entries.get? fields name) ∧ condition) property
      (HoldsInfinite (.object fields)) := by
  refine reads_part (by rintro ⟨⟩) (fun value hsize hvalue ↦ ?_) hnext
  refine Reads.imp ?_ Iff.rfl (hfields.blame hfield hvalue)
  by_cases hlist : ∃ items, value = .list items
  · obtain ⟨items, rfl⟩ := hlist
    rw [readPairs_list]
    exact reads_list fun item hitem ↦ reads_pair fun part hpart ↦
      hfields.inside part ((hpart.trans (sizeOf_item hitem)).trans hsize)
  · have hnot : ∀ items, value = .list items → False := fun items heq ↦ hlist ⟨items, heq⟩
    rw [readPairs]
    · exact reads_notList hnot
    · exact hnot

theorem reads_integer {next : Int → Except Fault β}
    (htype : Entries.get? fields "type" = some (.string "IntegerLiteral"))
    (hnext : ∀ value, Reads (next value) condition property (HoldsInfinite (.object fields))) :
    Reads (required className fields "value" >>= fun value ↦ readInteger className value.1 >>= next)
      (Fits .integer (Entries.get? fields "value") ∧ condition) property
      (HoldsInfinite (.object fields)) := by
  have hfits (value : Json) : Fits .integer (some value) ↔ Integral value :=
    ⟨fun | .integer h => h, .integer⟩
  refine reads_part (by rintro ⟨⟩) (fun value hsize hvalue ↦ ?_) hnext
  rw [hfits]
  cases value with
  | integer n => exact .accept (.integer n) trivial
  | boolean b => exact .accept (.boolean b) trivial
  | string text =>
    rw [readInteger]
    cases hread : Text.Numeral.read text with
    | ok n => exact .accept (.numeral hread) trivial
    | error refusal =>
      have hnot : ¬ Integral (.string text) := by
        rintro ⟨⟩
        simp_all
      cases refusal <;> exact .refuse hnot (by simp)
  | real x =>
    cases x with
    | finite negative mantissa exponent =>
      exact .accept (.finite negative mantissa exponent) trivial
    | infinity negative => exact .error (by rintro ⟨⟩) fun _ ↦ .here htype hvalue
    | nan => exact .refuse (by rintro ⟨⟩) (by simp)
  | null | list | object => exact .refuse (by rintro ⟨⟩) (by simp)

theorem origin?_isSome_iff {token : Json} :
    (origin? token).isSome ↔ Fits .token (some token) := by
  constructor
  · intro h
    unfold origin? at h
    split at h
    · split at h
      · rename_i fields _ _ name literal hkind hliteral
        rw [Option.isSome_map] at h
        obtain ⟨kind, hname⟩ := Option.isSome_iff_exists.mp h
        rw [Kind.ofName?] at hname
        have hname : kind.name = name := by simpa using List.find?_some hname
        exact .token kind (hname ▸ hkind) hliteral
      · cases h
    · cases h
  · intro h
    cases h with
    | token kind hkind hliteral => simp [origin?, hkind, hliteral, Kind.ofName?_name]

theorem reads_token {next : Origin → Except Fault β} {blame : Prop}
    (hnext : ∀ origin, Reads (next origin) condition property blame) :
    Reads (readOrigin fields >>= next) (Fits .token (Entries.get? fields "token") ∧ condition)
      property blame := by
  have horigin : (origin? ((Entries.get? fields "token").getD .null)).isSome ↔
      Fits .token (Entries.get? fields "token") := by
    cases Entries.get? fields "token" with
    | none => exact iff_of_false (by simp [origin?]) (by rintro ⟨⟩)
    | some token => exact origin?_isSome_iff
  refine Reads.bind ?_ fun origin (_ : True) ↦ hnext origin
  rw [← horigin, readOrigin]
  cases origin? ((Entries.get? fields "token").getD .null) with
  | none => exact .refuse (by simp) (by simp)
  | some origin => exact .accept rfl trivial

/-- A field that may be missing or `null`. -/
theorem reads_alternative (next : Option Block → Except Fault β) {label : String}
    (hfields : ReadsFields fields className) (hfield : isNodeField className name)
    (hnext : ∀ body, Reads (next body) condition property (HoldsInfinite (.object fields))) :
    Reads
      (match _h : Entries.get? fields name with
        | none => next none
        | some .null => next none
        | some alternative => read alternative >>= fun found ↦
          (blockSlot label).take found >>= fun body ↦ next (some body))
      (Fits (.optional (.child .block)) (Entries.get? fields name) ∧ condition) property
      (HoldsInfinite (.object fields)) := by
  split
  · rename_i hnone
    rw [hnone]
    exact (hnext none).imp (and_iff_right (.missing _)).symm id
  · rename_i hnull
    rw [hnull]
    exact (hnext none).imp (and_iff_right (.null _)).symm id
  · rename_i alternative hnot hsome
    have hfits : Fits (.child .block) (some alternative) ↔
        Fits (.optional (.child .block)) (some alternative) := by
      refine ⟨.present, fun h ↦ ?_⟩
      cases h with
      | null => exact absurd rfl hnot
      | present h => exact h
    rw [hsome, ← hfits]
    exact (hfields.inside alternative (Entries.sizeOf_get? hsome)).take_bind (admits_block _)
      (hfields.blame hfield hsome) fun body ↦ hnext (some body)

end Fields

/-! ### Classes -/

/-- An object of a class of the schema is read field by field. -/
theorem reads_class {fields : List (String × Json)} {className : String}
    {parts : List (String × Part)} (hinside : ReadsInside fields)
    (htype : Entries.get? fields "type" = some (.string className))
    (hschema : schema className = some parts) :
    Reads (readObject fields) (∀ part ∈ parts, Fits part.2 (Entries.get? fields part.1))
      (fun node ↦ node.className = className) (HoldsInfinite (.object fields)) := by
  have hfields : ReadsFields fields className := ⟨hinside, fun hfield ↦ .field htype hfield⟩
  unfold schema at hschema
  split at hschema
  all_goals
    simp only [Option.some.injEq, reduceCtorEq] at hschema
  all_goals
    subst hschema
    rw [readObject]
    simp only [htype, Option.getD_some, List.forall_mem_cons, List.not_mem_nil, false_implies,
      implies_true, Json.string.injEq, String.reduceEq, imp_self, pure_eq_ok]
  · -- Program
    exact reads_each hfields rfl (admits_statement _) fun statements ↦ .ok rfl
  · -- LetStatement
    exact reads_token fun origin ↦ reads_child hfields rfl (admits_identifier _) fun name ↦
      reads_child hfields rfl (admits_expression _) fun value ↦ .ok rfl
  · -- ReturnStatement
    exact reads_token fun origin ↦ reads_child hfields rfl (admits_expression _) fun value ↦ .ok rfl
  · -- ExpressionStatement
    exact reads_token fun origin ↦ reads_child hfields rfl (admits_expression _) fun value ↦ .ok rfl
  · -- BlockStatement
    exact reads_token fun origin ↦ reads_each hfields rfl (admits_statement _) fun body ↦ .ok rfl
  · -- Identifier
    exact reads_token fun origin ↦ reads_anything fun value ↦ .ok rfl
  · -- IntegerLiteral
    exact reads_token fun origin ↦ reads_integer htype fun value ↦ .ok rfl
  · -- BooleanLiteral
    exact reads_token fun origin ↦ reads_anything fun value ↦ .ok rfl
  · -- StringLiteral
    exact reads_token fun origin ↦ reads_anything fun value ↦ .ok rfl
  · -- PrefixExpression
    exact reads_token fun origin ↦ reads_anything fun operator ↦
      reads_child hfields rfl (admits_expression _) fun right ↦ .ok rfl
  · -- InfixExpression
    exact reads_token fun origin ↦ reads_child hfields rfl (admits_expression _) fun left ↦
      reads_anything fun operator ↦ reads_child hfields rfl (admits_expression _) fun right ↦
        .ok rfl
  · -- IfExpression
    exact reads_token fun origin ↦ reads_child hfields rfl (admits_expression _) fun condition ↦
      reads_child hfields rfl (admits_block _) fun consequence ↦
        reads_alternative
          (fun alternative ↦
            .ok (Node.expression (.conditional origin condition consequence alternative)))
          hfields rfl fun alternative ↦ .ok rfl
  · -- FunctionLiteral
    exact reads_token fun origin ↦ reads_each hfields rfl (admits_identifier _) fun parameters ↦
      reads_child hfields rfl (admits_block _) fun body ↦ .ok rfl
  · -- CallExpression
    exact reads_token fun origin ↦ reads_child hfields rfl (admits_expression _) fun callee ↦
      reads_each hfields rfl (admits_expression _) fun arguments ↦ .ok rfl
  · -- ArrayLiteral
    exact reads_token fun origin ↦ reads_each hfields rfl (admits_expression _) fun elements ↦
      .ok rfl
  · -- IndexExpression
    exact reads_token fun origin ↦ reads_child hfields rfl (admits_expression _) fun left ↦
      reads_child hfields rfl (admits_expression _) fun place ↦ .ok rfl
  · -- HashLiteral
    exact reads_token fun origin ↦ reads_pairs hfields rfl fun pairs ↦ .ok rfl

/-- An object without a class of the schema is refused, whatever its token. -/
theorem reads_unknown {fields : List (String × Json)} {property : Node → Prop}
    (hunknown : ∀ className, Entries.get? fields "type" = some (.string className) →
      schema className = none) :
    Reads (readObject fields) False property (HoldsInfinite (.object fields)) := by
  have hne : ∀ className parts, schema className = some parts →
      (Entries.get? fields "type").getD .null ≠ .string className := by
    intro className parts hschema heq
    cases htype : Entries.get? fields "type" with
    | none =>
      rw [htype] at heq
      cases heq
    | some value =>
      rw [htype, Option.getD_some] at heq
      rw [hunknown className (heq ▸ htype)] at hschema
      cases hschema
  rw [readObject]
  generalize (Entries.get? fields "type").getD .null = found at hne
  dsimp only
  split
  · exact absurd rfl (hne "Program" _ rfl)
  · refine (reads_token fun origin ↦ ?_).imp (iff_of_eq (and_false _)) id
    split
    all_goals first | exact absurd rfl (hne _ _ rfl) | exact .refuse id (by simp)

theorem conforms_object_iff {fields : List (String × Json)} {className : String}
    {parts : List (String × Part)}
    (htype : Entries.get? fields "type" = some (.string className))
    (hschema : schema className = some parts) :
    (∃ other, Conforms (.object fields) other) ↔
      ∀ part ∈ parts, Fits part.2 (Entries.get? fields part.1) := by
  constructor
  · rintro ⟨other, hconforms⟩
    cases hconforms with
    | object htype' hschema' hparts =>
      rw [htype] at htype'
      cases htype'
      rw [hschema] at hschema'
      cases hschema'
      exact hparts
  · exact fun hparts ↦ ⟨className, .object htype hschema hparts⟩

theorem reads_object {fields : List (String × Json)} (hinside : ReadsInside fields) :
    Reads (readObject fields) (∃ className, Conforms (.object fields) className)
      (fun node ↦ Conforms (.object fields) node.className) (HoldsInfinite (.object fields)) := by
  by_cases hknown : ∃ className parts,
      Entries.get? fields "type" = some (.string className) ∧ schema className = some parts
  · obtain ⟨className, parts, htype, hschema⟩ := hknown
    have hclass := reads_class hinside htype hschema
    have hconforms := conforms_object_iff htype hschema
    refine ⟨hclass.exists_ok_iff.trans hconforms.symm, fun node hnode ↦ ?_,
      hclass.blame_of_infinite⟩
    rw [hclass.property_of_ok node hnode]
    exact .object htype hschema (hclass.exists_ok_iff.mp ⟨node, hnode⟩)
  · have hunknown : ∀ className, Entries.get? fields "type" = some (.string className) →
        schema className = none := by
      intro className htype
      by_contra hschema
      obtain ⟨parts, hschema⟩ := Option.ne_none_iff_exists'.mp hschema
      exact hknown ⟨className, parts, htype, hschema⟩
    refine (reads_unknown hunknown).imp (iff_of_false id ?_) id
    rintro ⟨className, hconforms⟩
    cases hconforms with
    | object htype hschema _ => exact hknown ⟨className, _, htype, hschema⟩

/-- Every document is read as it should be, by induction on its size. -/
theorem readsNode (document : Json) : ReadsNode document := by
  induction hsize : sizeOf document using Nat.strong_induction_on generalizing document with
  | _ size ih =>
    subst hsize
    cases document with
    | null =>
      rw [ReadsNode, read]
      exact .accept (.inl rfl) rfl
    | object fields =>
      have hinside : ReadsInside fields := fun part hpart ↦
        ih _ (hpart.trans (by rw [Json.object.sizeOf_spec]; omega)) part rfl
      rw [ReadsNode, read_object]
      refine ((reads_object hinside).bind fun node hnode ↦ .accept trivial ?_).imp ?_ id
      · exact hnode
      · simp
    | _ =>
      rw [ReadsNode, read]
      · refine .refuse ?_ (by simp)
        rintro (⟨⟨⟩⟩ | ⟨className, ⟨⟩⟩)
      · simp
      · simp

/-! ### The order of fields, and fields that the class does not have -/

/-- Whether two objects have the same class and the same values in the fields of that class. -/
structure Alike (fields fields' : List (String × Json)) : Prop where
  type : Entries.get? fields' "type" = Entries.get? fields "type"
  /-- Every class but one has a token, which is looked at before the class is known. -/
  token : Entries.get? fields "type" ≠ some (.string "Program") →
    Entries.get? fields' "token" = Entries.get? fields "token"
  own : ∀ className name, Entries.get? fields "type" = some (.string className) →
    isField className name → Entries.get? fields' name = Entries.get? fields name

theorem required_congr {β : Type} {fields fields' : List (String × Json)} {className name : String}
    {next : {value : Json // sizeOf value < sizeOf fields} → Except Fault β}
    {next' : {value : Json // sizeOf value < sizeOf fields'} → Except Fault β}
    (hsame : Entries.get? fields' name = Entries.get? fields name)
    (hnext : ∀ value hsize hsize', next' ⟨value, hsize'⟩ = next ⟨value, hsize⟩) :
    (required className fields' name >>= next') = (required className fields name >>= next) := by
  unfold required
  split <;> split
  · rename_i value hvalue other hother
    have heq : value = other := by simpa [hvalue, hother] using hsame
    subst heq
    exact hnext value _ _
  · rename_i hvalue hother
    simp [hvalue, hother] at hsame
  · rename_i hvalue _ hother
    simp [hvalue, hother] at hsame
  · rfl

theorem readObject_congr {fields fields' : List (String × Json)} (halike : Alike fields fields') :
    readObject fields' = readObject fields := by
  have htype {className : String}
      (hclass : (Entries.get? fields "type").getD .null = .string className) :
      Entries.get? fields "type" = some (.string className) := by
    cases htype : Entries.get? fields "type" with
    | none => simp [htype] at hclass
    | some value => rw [← hclass, htype, Option.getD_some]
  have hsame {className name : String}
      (hclass : (Entries.get? fields "type").getD .null = .string className)
      (hfield : isField className name) : Entries.get? fields' name = Entries.get? fields name :=
    halike.own className name (htype hclass) hfield
  rw [readObject, readObject, halike.type]
  dsimp only
  split
  · rename_i hclass
    exact required_congr (hsame hclass rfl) fun _ _ _ ↦ rfl
  · rename_i hprogram
    have htoken := halike.token fun hclass ↦ hprogram (by rw [hclass, Option.getD_some])
    rw [readOrigin, readOrigin, htoken]
    refine bind_congr fun origin ↦ ?_
    split
    -- both sides fetch the same fields one after the other
    all_goals
      repeat' first
        | rfl
        | refine required_congr (hsame (by assumption) rfl) fun _ _ _ ↦ ?_
        | refine bind_congr fun _ ↦ ?_
        | rw [hsame (by assumption) (rfl : isField "IfExpression" "alternative")]

/-! ### Acceptance -/

/-- Only `null` is read as none. An object is read as a node of a class exactly if it conforms to
that class. Every other document is refused, for a fault of its format unless it holds an infinite
number in the place of an integer. The order of the fields of an object, and those that its class
does not have, do not matter. -/
theorem reading_accepts_conforming (document : Json) :
    (read document = .ok none ↔ document = .null) ∧
      (∀ className, (∃ node, read document = .ok (some node) ∧ node.className = className) ↔
        Conforms document className) ∧
      (document ≠ .null → (∀ className, ¬ Conforms document className) →
        ∃ fault, read document = .error fault ∧ (fault = .infinite → HoldsInfinite document)) ∧
      ∀ fields fields', document = .object fields → Alike fields fields' →
        read (.object fields') = read document := by
  have hread := readsNode document
  refine ⟨⟨hread.property_of_ok none, ?_⟩, fun className ↦ ⟨?_, fun hconforms ↦ ?_⟩, ?_, ?_⟩
  · rintro rfl
    rw [read]
  · rintro ⟨node, hnode, rfl⟩
    exact hread.property_of_ok (some node) hnode
  · obtain ⟨found, hfound⟩ := hread.exists_ok_iff.mpr (.inr ⟨className, hconforms⟩)
    have hproperty := hread.property_of_ok found hfound
    cases found with
    | none =>
      have hnull : document = .null := hproperty
      subst hnull
      cases hconforms
    | some node => exact ⟨node, hfound, Conforms.className_eq hproperty hconforms⟩
  · intro hnull hnone
    cases hresult : read document with
    | error fault => exact ⟨fault, rfl, fun heq ↦ hread.blame_of_infinite (heq ▸ hresult)⟩
    | ok found =>
      rcases hread.exists_ok_iff.mp ⟨found, hresult⟩ with heq | ⟨className, hconforms⟩
      · exact absurd heq hnull
      · exact absurd hconforms (hnone className)
  · rintro fields fields' rfl halike
    rw [read_object, read_object, readObject_congr halike]

/-- A text of two characters is taken apart into two items, but these are no nodes. -/
theorem reading_refuses_text_as_pair :
    (∀ className, ¬ Conforms (nodeDocument "HashLiteral" ⟨.lbrace, .string "\x7b"⟩
        [("pairs", .list [.string "ab"])]) className) ∧
      ∃ fault, read (nodeDocument "HashLiteral" ⟨.lbrace, .string "\x7b"⟩
        [("pairs", .list [.string "ab"])]) = .error fault := by
  have hnone : ∀ className, ¬ Conforms (nodeDocument "HashLiteral" ⟨.lbrace, .string "\x7b"⟩
      [("pairs", .list [.string "ab"])]) className := by
    intro className hconforms
    obtain ⟨fields, hfields, htype⟩ := hconforms.exists_object
    cases hfields
    have hparts := (conforms_object_iff rfl rfl).mp ⟨className, hconforms⟩
    cases hparts ("pairs", .list (.pair (.child .expression))) (by simp) with
    | list hitems =>
      obtain ⟨first, second, heq, -, -⟩ := exists_list_of_fits_pair (hitems _ (.head _))
      cases heq
  obtain ⟨-, -, hrefused, -⟩ := reading_accepts_conforming (nodeDocument "HashLiteral"
    ⟨.lbrace, .string "\x7b"⟩ [("pairs", .list [.string "ab"])])
  obtain ⟨fault, hfault, -⟩ := hrefused (by simp [nodeDocument]) hnone
  exact ⟨hnone, fault, hfault⟩

/-- The text `1e400` spells an infinite number. In the place of an integer it does not conform, and
yet it is not refused for a fault of the format. -/
theorem infinite_integer_is_no_format_fault :
    Json.ofString "1e400" = .ok (.real (.infinity false)) ∧
      (∀ className, ¬ Conforms (nodeDocument "IntegerLiteral" ⟨.integer, .string "1"⟩
        [("value", .real (.infinity false))]) className) ∧
      read (nodeDocument "IntegerLiteral" ⟨.integer, .string "1"⟩
        [("value", .real (.infinity false))]) = .error .infinite := by
  have hread : read (nodeDocument "IntegerLiteral" ⟨.integer, .string "1"⟩
      [("value", .real (.infinity false))]) = .error .infinite := by
    rw [read_node, readObject]
    simp [required, Entries.get?, readInteger, bind, Except.bind]
  refine ⟨rfl, fun className hconforms ↦ ?_, hread⟩
  obtain ⟨found, hfound⟩ := (readsNode _).exists_ok_iff.mpr (.inr ⟨className, hconforms⟩)
  rw [hread] at hfound
  cases hfound

end MonkeyLang.Document
