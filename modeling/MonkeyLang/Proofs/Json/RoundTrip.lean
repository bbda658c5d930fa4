import Mathlib.Tactic
import MonkeyLang.Proofs.Json.Scalars

/-!
# Reading back JSON values

A value is legible if its text determines it: its integers do not have too many digits, it has no
other number, and none of its objects has a name twice. A legible value is read back from its
indented text, and that text has no carriage return, so that nothing is lost when it is kept in a
file.

The lemmas on one step say how reading goes on behind the bracket that opens a list or an object,
and behind an item or a field that has been read. From them and from `ReadBack` for the items comes
`ReadBack` for lists and objects; the bound of the reader is never less than the text that is left.
-/

set_option autoImplicit false

namespace MonkeyLang.Json

open Reader Writer

/-! ### Values that can be read back -/

mutual

/-- A value that its text determines: no integer of too many digits, no other number, and no object
that has a name twice. -/
def Legible : Json → Prop
  | null | boolean _ | string _ => True
  | integer n => (Nat.toDigits 10 n.natAbs).length ≤ Text.Numeral.maxDigits
  | real _ => False
  | list items => LegibleItems items
  | object fields => (fields.map Prod.fst).Nodup ∧ LegibleFields fields

def LegibleItems : List Json → Prop
  | [] => True
  | item :: rest => item.Legible ∧ LegibleItems rest

def LegibleFields : List (String × Json) → Prop
  | [] => True
  | (_, value) :: rest => value.Legible ∧ LegibleFields rest

end

/-- A text that starts like a value: not with space, not like the end of a list, and not with a
mark of the byte order. -/
def Starts (text : List Char) : Prop :=
  ∃ c more, text = c :: more ∧ Cursor.isSpace c = false ∧ c ≠ ']' ∧ c ≠ '\ufeff'

theorem Starts.append {text : List Char} (h : Starts text) (rest : List Char) :
    Starts (text ++ rest) := by
  obtain ⟨c, more, rfl, hc⟩ := h
  exact ⟨c, more ++ rest, rfl, hc⟩

/-! ### One step of reading -/

theorem readWord?_toString (n : Int) (offset : Nat) (rest : List Char) :
    readWord? ⟨offset, (toString n).toList ++ rest⟩ = none := by
  obtain ⟨digit, more, hdigit, hmore | hmore⟩ := exists_digit_toString n
  · rw [hmore]
    simp (disch := decide) [readWord?, words, (ne_of_isAsciiDigit hdigit _).symm]
  · rw [hmore]
    simp (disch := decide) [readWord?, words, (ne_of_isAsciiDigit hdigit _).symm]

theorem readValue_integer (n : Int) {bound offset : Nat} {rest : List Char} :
    readValue (bound + 1) ⟨offset, (toString n).toList ++ rest⟩ =
      readNumber ⟨offset, (toString n).toList ++ rest⟩ := by
  have hword := readWord?_toString n offset rest
  obtain ⟨digit, more, hdigit, hmore | hmore⟩ := exists_digit_toString n
  · have hquote := ne_of_isAsciiDigit hdigit (show isAsciiDigit '"' = false by decide)
    have hbrace := ne_of_isAsciiDigit hdigit (show isAsciiDigit '\x7b' = false by decide)
    have hbracket := ne_of_isAsciiDigit hdigit (show isAsciiDigit '[' = false by decide)
    rw [hmore, List.cons_append] at hword ⊢
    simp [readValue, hword, hquote, hbrace, hbracket]
  · rw [hmore, List.cons_append] at hword ⊢
    rw [readValue, hword]
    rfl

theorem readValue_list {bound offset indent : Nat} {rest : List Char}
    (hrest : Starts rest) :
    readValue (bound + 1) ⟨offset, '[' :: ((newline indent).toList ++ rest)⟩ =
      readItems bound ⟨offset + 1 + (newline indent).toList.length, rest⟩ [] := by
  obtain ⟨c, rest, rfl, hspace, hclose, -⟩ := hrest
  simp [readValue, Cursor.advance, skipSpace_newline _ _ hspace, hclose]

theorem readValue_object {bound offset indent : Nat} {rest : List Char} :
    readValue (bound + 1) ⟨offset, '\x7b' :: ((newline indent).toList ++ '"' :: rest)⟩ =
      readFields bound ⟨offset + 1 + (newline indent).toList.length, '"' :: rest⟩ [] := by
  simp [readValue, Cursor.advance, skipSpace_newline _ _ (show Cursor.isSpace '"' = false from rfl)]

section Items

variable {bound offset after indent : Nat} {text rest : List Char} {item : Json}
  {done : List Json}

theorem readItems_last
    (hitem : readValue bound ⟨offset, text⟩ =
      .ok (item, ⟨after, (newline indent).toList ++ ']' :: rest⟩)) :
    ∃ after', readItems (bound + 1) ⟨offset, text⟩ done =
      .ok (.list (done.reverse ++ [item]), ⟨after', rest⟩) := by
  refine ⟨after + (newline indent).toList.length + 1, ?_⟩
  have hclose : Cursor.isSpace ']' = false := rfl
  simp [readItems, hitem, skipSpace_newline _ _ hclose, Cursor.advance]

theorem readItems_next
    (hitem : readValue bound ⟨offset, text⟩ =
      .ok (item, ⟨after, ',' :: ((newline indent).toList ++ rest)⟩))
    (hrest : Starts rest) :
    ∃ after', readItems (bound + 1) ⟨offset, text⟩ done =
      readItems bound ⟨after', rest⟩ (item :: done) := by
  obtain ⟨c, rest, rfl, hspace, -⟩ := hrest
  refine ⟨after + 1 + (newline indent).toList.length, ?_⟩
  have hcomma : Cursor.isSpace ',' = false := rfl
  simp [readItems, hitem, skipSpace_cons _ hcomma, skipSpace_newline _ _ hspace, Cursor.advance]

end Items

theorem readValue_string (s : String) {bound offset : Nat} {rest : List Char} :
    ∃ offset', readValue (bound + 1) ⟨offset, (stringText s).toList ++ rest⟩ =
      .ok (.string s, ⟨offset', rest⟩) := by
  obtain ⟨offset', hread⟩ := readString_stringText s offset rest
  refine ⟨offset', ?_⟩
  rw [toList_stringText, List.cons_append] at hread ⊢
  simp only [readValue, hread, ok_bind, pure_eq_ok]

section Fields

variable {bound offset indent : Nat} {name : String} {text tail rest : List Char} {value : Json}
  {done : List (String × Json)}

/-- In front of its value, a field has its name, a colon and a space. -/
theorem readString_name (name : String) (offset : Nat) {text : List Char}
    (hstart : Starts text) :
    ∃ colon after,
      readString offset ((stringText name).toList ++ ':' :: ' ' :: text)
          ((Cursor.mk offset ((stringText name).toList ++ ':' :: ' ' :: text)).advance 1) [] =
        .ok (name, ⟨colon, ':' :: ' ' :: text⟩) ∧
      (Cursor.mk (colon + 1) (' ' :: text)).skipSpace = ⟨after, text⟩ := by
  obtain ⟨c, text, rfl, hspace, -⟩ := hstart
  obtain ⟨colon, hname⟩ := readString_stringText name offset (':' :: ' ' :: c :: text)
  exact ⟨colon, _, hname, @skipSpace_append [' '] text c (colon + 1)
    (List.forall_mem_singleton.mpr rfl) hspace⟩

theorem readFields_last (hstart : Starts text)
    (hvalue : ∀ offset, ∃ after, readValue bound ⟨offset, text⟩ =
      .ok (value, ⟨after, (newline indent).toList ++ '\x7d' :: rest⟩)) :
    ∃ after, readFields (bound + 1) ⟨offset, (stringText name).toList ++ ':' :: ' ' :: text⟩ done =
      .ok (.object (Entries.put name value done), ⟨after, rest⟩) := by
  obtain ⟨colon, place, hname, hskip⟩ := readString_name name offset hstart
  obtain ⟨after, hvalue⟩ := hvalue place
  refine ⟨after + (newline indent).toList.length + 1, ?_⟩
  have hcolon : Cursor.isSpace ':' = false := rfl
  have hclose : Cursor.isSpace '\x7d' = false := rfl
  rw [toList_stringText, List.cons_append] at hname ⊢
  simp only [readFields, hname, ok_bind]
  simp only [skipSpace_cons _ hcolon, Cursor.advance, List.drop_succ_cons, List.drop_zero, hskip,
    hvalue, ok_bind, skipSpace_newline _ _ hclose, pure_eq_ok]

theorem readFields_next (hstart : Starts text)
    (hvalue : ∀ offset, ∃ after, readValue bound ⟨offset, text⟩ =
      .ok (value, ⟨after, ',' :: ((newline indent).toList ++ '"' :: rest)⟩)) :
    ∃ after, readFields (bound + 1) ⟨offset, (stringText name).toList ++ ':' :: ' ' :: text⟩ done =
      readFields bound ⟨after, '"' :: rest⟩ (Entries.put name value done) := by
  obtain ⟨colon, place, hname, hskip⟩ := readString_name name offset hstart
  obtain ⟨after, hvalue⟩ := hvalue place
  refine ⟨after + 1 + (newline indent).toList.length, ?_⟩
  have hcolon : Cursor.isSpace ':' = false := rfl
  have hcomma : Cursor.isSpace ',' = false := rfl
  have hquote : Cursor.isSpace '"' = false := rfl
  rw [toList_stringText, List.cons_append] at hname ⊢
  simp only [readFields, hname, ok_bind]
  simp only [skipSpace_cons _ hcolon, Cursor.advance, List.drop_succ_cons, List.drop_zero, hskip,
    hvalue, ok_bind, skipSpace_cons _ hcomma, skipSpace_newline _ _ hquote]

end Fields

/-! ### Whole values -/

theorem ended_newline (indent : Nat) (rest : List Char) :
    Ended ((newline indent).toList ++ rest) := by
  simp [Ended, newline]

theorem ended_comma (rest : List Char) : Ended (',' :: rest) := by
  simp [Ended]

/-- The text of a value starts like one, and it is read as the value when it is ended and the bound
is not less than its length. -/
structure ReadBack (value : Json) : Prop where
  starts : ∀ indent, Starts (value.indentedAt indent).toList
  reads : ∀ indent bound offset rest, Ended rest →
    (value.indentedAt indent).toList.length ≤ bound →
      ∃ after, readValue bound ⟨offset, (value.indentedAt indent).toList ++ rest⟩ =
        .ok (value, ⟨after, rest⟩)

/-- A text that starts is not empty, so that a bound of zero does not arise. -/
theorem ReadBack.of_succ {value : Json}
    (hstarts : ∀ indent, Starts (value.indentedAt indent).toList)
    (hreads : ∀ indent bound offset rest, Ended rest →
      (value.indentedAt indent).toList.length ≤ bound + 1 →
        ∃ after, readValue (bound + 1) ⟨offset, (value.indentedAt indent).toList ++ rest⟩ =
          .ok (value, ⟨after, rest⟩)) :
    value.ReadBack where
  starts := hstarts
  reads indent bound offset rest hrest hbound := by
    cases bound with
    | zero =>
      obtain ⟨c, more, htext, -⟩ := hstarts indent
      rw [htext] at hbound
      exact absurd hbound (Nat.not_succ_le_zero _)
    | succ bound => exact hreads indent bound offset rest hrest hbound

/-- What stands between two items or fields. -/
def separator (indent : Nat) : String :=
  "," ++ newline indent

theorem toList_separated_cons_cons (indent : Nat) (first second : String) (texts : List String) :
    ((separator indent).intercalate (first :: second :: texts)).toList =
      first.toList ++ ',' :: ((newline indent).toList ++
        ((separator indent).intercalate (second :: texts)).toList) := by
  simp [String.intercalate_cons_cons, separator]

/-- Several texts start like the first of them. -/
theorem exists_toList_intercalate (separator first : String) (texts : List String) :
    ∃ more, (separator.intercalate (first :: texts)).toList = first.toList ++ more := by
  cases texts with
  | nil => exact ⟨[], by rw [String.intercalate_singleton, List.append_nil]⟩
  | cons next texts =>
    rw [String.intercalate_cons_cons, String.toList_append, String.toList_append, List.append_assoc]
    exact ⟨_, rfl⟩

theorem starts_items {item : Json} (h : item.ReadBack) (indent : Nat) (items : List Json) :
    Starts ((separator indent).intercalate (indentedItems indent (item :: items))).toList := by
  rw [indentedItems]
  obtain ⟨more, hmore⟩ := exists_toList_intercalate (separator indent) (item.indentedAt indent)
    (indentedItems indent items)
  rw [hmore]
  exact (h.starts indent).append more

theorem toList_indentedAt_list (indent : Nat) (item : Json) (items : List Json) :
    ((list (item :: items)).indentedAt indent).toList =
      '[' :: ((newline (indent + 2)).toList ++
        (((separator (indent + 2)).intercalate
          (indentedItems (indent + 2) (item :: items))).toList ++
          ((newline indent).toList ++ [']']))) := by
  simp [indentedAt, indentedItems, separator]

theorem readItems_indented {items : List Json} (hne : items ≠ [])
    (h : ∀ item ∈ items, item.ReadBack) (indent bound offset : Nat) (rest : List Char)
    (done : List Json)
    (hbound : ((separator (indent + 2)).intercalate
      (indentedItems (indent + 2) items)).toList.length < bound) :
    ∃ after, readItems bound ⟨offset,
        ((separator (indent + 2)).intercalate (indentedItems (indent + 2) items)).toList ++
          ((newline indent).toList ++ ']' :: rest)⟩ done =
      .ok (list (done.reverse ++ items), ⟨after, rest⟩) := by
  induction items generalizing bound offset done with
  | nil => exact absurd rfl hne
  | cons item items ih =>
    obtain ⟨bound, rfl⟩ := Nat.exists_eq_succ_of_ne_zero (Nat.ne_zero_of_lt hbound)
    obtain ⟨hitem, hitems⟩ := List.forall_mem_cons.mp h
    cases items with
    | nil =>
      rw [indentedItems, indentedItems, String.intercalate_singleton] at hbound ⊢
      obtain ⟨after, hread⟩ := hitem.reads (indent + 2) bound offset _
        (ended_newline indent (']' :: rest)) (Nat.lt_succ_iff.mp hbound)
      exact readItems_last hread
    | cons next items =>
      have hstart := starts_items (hitems next List.mem_cons_self) (indent + 2) items
      rw [indentedItems, indentedItems, toList_separated_cons_cons, ← indentedItems] at hbound ⊢
      rw [List.length_append, List.length_cons, List.length_append] at hbound
      simp only [List.append_assoc, List.cons_append]
      obtain ⟨after, hread⟩ := hitem.reads (indent + 2) bound offset _ (ended_comma _) (by omega)
      obtain ⟨place, hnext⟩ := @readItems_next _ _ _ _ _ _ _ done hread (hstart.append _)
      obtain ⟨last, hlast⟩ := ih nofun hitems bound place (item :: done) (by omega)
      refine ⟨last, hnext.trans (hlast.trans ?_)⟩
      rw [List.reverse_cons, List.append_assoc, List.singleton_append]

theorem exists_quote_fields (indent : Nat) (field : String × Json) (fields : List (String × Json))
    (rest : List Char) :
    ∃ more, ((separator indent).intercalate (indentedFields indent (field :: fields))).toList ++
      rest = '"' :: more := by
  rw [indentedFields]
  obtain ⟨more, hmore⟩ := exists_toList_intercalate (separator indent)
    (stringText field.1 ++ ": " ++ field.2.indentedAt indent) (indentedFields indent fields)
  rw [hmore, String.toList_append, String.toList_append, toList_stringText]
  exact ⟨_, rfl⟩

theorem put_of_not_mem {name : String} (value : Json) {fields : List (String × Json)}
    (h : name ∉ fields.map Prod.fst) :
    Entries.put name value fields = fields ++ [(name, value)] := by
  induction fields with
  | nil => rfl
  | cons field fields ih =>
    rw [List.map_cons, List.mem_cons, not_or] at h
    rw [Entries.put, if_neg (Ne.symm h.1), ih h.2, List.cons_append]

theorem toList_indentedAt_object (indent : Nat) (field : String × Json)
    (fields : List (String × Json)) :
    ((object (field :: fields)).indentedAt indent).toList =
      '\x7b' :: ((newline (indent + 2)).toList ++
        (((separator (indent + 2)).intercalate
          (indentedFields (indent + 2) (field :: fields))).toList ++
          ((newline indent).toList ++ ['\x7d']))) := by
  simp [indentedAt, indentedFields, separator]

theorem readFields_indented {fields : List (String × Json)} (hne : fields ≠ [])
    (h : ∀ field ∈ fields, field.2.ReadBack) (indent bound offset : Nat)
    (rest : List Char) (done : List (String × Json))
    (hnames : ((done ++ fields).map Prod.fst).Nodup)
    (hbound : ((separator (indent + 2)).intercalate
      (indentedFields (indent + 2) fields)).toList.length < bound) :
    ∃ after, readFields bound ⟨offset,
        ((separator (indent + 2)).intercalate (indentedFields (indent + 2) fields)).toList ++
          ((newline indent).toList ++ '\x7d' :: rest)⟩ done =
      .ok (object (done ++ fields), ⟨after, rest⟩) := by
  induction fields generalizing bound offset done with
  | nil => exact absurd rfl hne
  | cons field fields ih =>
    obtain ⟨bound, rfl⟩ := Nat.exists_eq_succ_of_ne_zero (Nat.ne_zero_of_lt hbound)
    obtain ⟨name, value⟩ := field
    obtain ⟨hvalue, hfields⟩ :
        value.ReadBack ∧ ∀ field ∈ fields, field.2.ReadBack := List.forall_mem_cons.mp h
    have hstart := hvalue.starts (indent + 2)
    have hput : Entries.put name value done = done ++ [(name, value)] := by
      rw [List.map_append, List.map_cons] at hnames
      exact put_of_not_mem value fun hmem ↦
        List.disjoint_of_nodup_append hnames hmem List.mem_cons_self
    cases fields with
    | nil =>
      rw [indentedFields, indentedFields, String.intercalate_singleton] at hbound ⊢
      simp only [String.toList_append, List.length_append] at hbound
      simp only [String.toList_append, List.append_assoc]
      have hreads (place : Nat) := hvalue.reads (indent + 2) bound place
        ((newline indent).toList ++ '\x7d' :: rest) (ended_newline indent _) (by omega)
      rw [← hput]
      exact readFields_last (hstart.append _) hreads
    | cons next fields =>
      obtain ⟨nextName, nextValue⟩ := next
      obtain ⟨more, hmore⟩ := exists_quote_fields (indent + 2) (nextName, nextValue) fields
        ((newline indent).toList ++ '\x7d' :: rest)
      rw [indentedFields, indentedFields, toList_separated_cons_cons, ← indentedFields] at hbound ⊢
      simp only [String.toList_append, List.length_append, List.length_cons] at hbound
      simp only [String.toList_append, List.append_assoc, List.cons_append]
      have hreads (place : Nat) := hvalue.reads (indent + 2) bound place
        (',' :: ((newline (indent + 2)).toList ++ '"' :: more)) (ended_comma _) (by omega)
      obtain ⟨place, hnext⟩ := @readFields_next bound offset _ name _ more value done
        (hstart.append _) hreads
      obtain ⟨last, hlast⟩ := ih nofun hfields bound place (done ++ [(name, value)])
        (by simpa using hnames) (by omega)
      rw [hput, ← hmore] at hnext
      refine ⟨last, hnext.trans (hlast.trans ?_)⟩
      rw [List.append_assoc, List.singleton_append]

theorem readBack_list {items : List Json} (h : ∀ item ∈ items, item.ReadBack) :
    (list items).ReadBack := by
  refine .of_succ (fun indent ↦ ?_) fun indent bound offset rest hrest hbound ↦ ?_
  · cases items <;> simp [indentedAt, Starts, Cursor.isSpace]
  · cases items with
    | nil =>
      rw [indentedAt]
      exact ⟨offset + 2, rfl⟩
    | cons item items =>
      rw [toList_indentedAt_list] at hbound ⊢
      simp only [List.length_cons, List.length_append] at hbound
      simp only [List.cons_append, List.append_assoc, List.nil_append]
      rw [readValue_list ((starts_items (h item List.mem_cons_self) _ _).append _)]
      exact readItems_indented (List.cons_ne_nil _ _) h indent bound _ rest [] (by omega)

theorem readBack_object {fields : List (String × Json)} (hnames : (fields.map Prod.fst).Nodup)
    (h : ∀ field ∈ fields, field.2.ReadBack) : (object fields).ReadBack := by
  refine .of_succ (fun indent ↦ ?_) fun indent bound offset rest hrest hbound ↦ ?_
  · cases fields <;> simp [indentedAt, Starts, Cursor.isSpace]
  · cases fields with
    | nil =>
      rw [indentedAt]
      exact ⟨offset + 2, rfl⟩
    | cons field fields =>
      rw [toList_indentedAt_object] at hbound ⊢
      simp only [List.length_cons, List.length_append] at hbound
      simp only [List.cons_append, List.append_assoc, List.nil_append]
      obtain ⟨more, hmore⟩ := exists_quote_fields (indent + 2) field fields
        ((newline indent).toList ++ '\x7d' :: rest)
      rw [hmore, readValue_object, ← hmore]
      exact readFields_indented (List.cons_ne_nil _ _) h indent bound _ rest [] hnames (by omega)

theorem readBack_integer {n : Int}
    (h : (Nat.toDigits 10 n.natAbs).length ≤ Text.Numeral.maxDigits) : (integer n).ReadBack := by
  refine .of_succ (fun indent ↦ ?_) fun indent bound offset rest hrest _ ↦ ?_
  · obtain ⟨digit, more, hdigit, hmore | hmore⟩ := exists_digit_toString n
    · refine ⟨digit, more, by rw [indentedAt, hmore], ?_⟩
      simp (disch := decide) [Cursor.isSpace, ne_of_isAsciiDigit hdigit]
    · exact ⟨'-', digit :: more, by rw [indentedAt, hmore], by decide⟩
  · rw [indentedAt, readValue_integer]
    exact readNumber_toString n offset hrest h

mutual

theorem readBack_of_legible : (value : Json) → value.Legible → value.ReadBack
  | null, _ => .of_succ (fun _ ↦ by simp [indentedAt, Starts, Cursor.isSpace])
    fun indent bound offset rest _ _ ↦ by
      rw [indentedAt]
      exact ⟨offset + 4, rfl⟩
  | boolean true, _ => .of_succ (fun _ ↦ by simp [indentedAt, Starts, Cursor.isSpace])
    fun indent bound offset rest _ _ ↦ by
      rw [indentedAt]
      exact ⟨offset + 4, rfl⟩
  | boolean false, _ => .of_succ (fun _ ↦ by simp [indentedAt, Starts, Cursor.isSpace])
    fun indent bound offset rest _ _ ↦ by
      rw [indentedAt]
      exact ⟨offset + 5, rfl⟩
  | integer n, h => readBack_integer h
  | string s, _ => .of_succ
    (fun _ ↦ by simp [indentedAt, toList_stringText, Starts, Cursor.isSpace])
    fun indent bound offset rest _ _ ↦ by
      rw [indentedAt]
      exact readValue_string s
  | list items, h => readBack_list (readBack_items items h)
  | object fields, h => readBack_object h.1 (readBack_fields fields h.2)

theorem readBack_items : (items : List Json) → LegibleItems items → ∀ item ∈ items, item.ReadBack
  | [], _ => List.forall_mem_nil _
  | item :: items, h =>
    List.forall_mem_cons.mpr ⟨readBack_of_legible item h.1, readBack_items items h.2⟩

theorem readBack_fields : (fields : List (String × Json)) → LegibleFields fields →
    ∀ field ∈ fields, field.2.ReadBack
  | [], _ => List.forall_mem_nil _
  | (_, value) :: fields, h =>
    List.forall_mem_cons.mpr ⟨readBack_of_legible value h.1, readBack_fields fields h.2⟩

end

/-- A legible value is read back from its indented text. -/
theorem ofString_indented {value : Json} (h : value.Legible) :
    ofString value.indented = .ok value := by
  have hback := readBack_of_legible value h
  obtain ⟨c, more, htext, hspace, -, hmark⟩ := hback.starts 0
  obtain ⟨after, hread⟩ := hback.reads 0 (2 * value.indented.toList.length + 1) 0 []
    nofun (by rw [indented]; omega)
  rw [List.append_nil, ← indented] at hread
  rw [← indented] at htext
  rw [ofString, ofChars, htext, if_neg (by simp [hmark]), skipSpace_cons 0 hspace, ← htext, hread]
  rfl

/-! ### Line ends -/

theorem not_mem_escape (c : Char) : '\r' ∉ escape c := by
  unfold escape
  split_ifs with hquote hbackslash hnewline hreturn htab hback hfeed hcontrol
  all_goals first | decide | skip
  · have hdigits : ∀ n < 32, '\r' ∉ codeUnit n := by decide
    exact hdigits _ hcontrol
  · simpa using Ne.symm hreturn

theorem not_mem_stringText (s : String) : '\r' ∉ (stringText s).toList := by
  simp [toList_stringText, not_mem_escape]

theorem not_mem_intercalate {separator : String} {texts : List String} {c : Char}
    (hseparator : c ∉ separator.toList) (htexts : ∀ text ∈ texts, c ∉ text.toList) :
    c ∉ (separator.intercalate texts).toList := by
  induction texts with
  | nil => simp
  | cons text texts ih => 
    obtain ⟨htext, htexts⟩ := List.forall_mem_cons.mp htexts
    cases texts with
    | nil => simpa using htext
    | cons next texts =>
      rw [String.intercalate_cons_cons, String.toList_append, String.toList_append,
        List.mem_append, List.mem_append]
      exact not_or.mpr ⟨not_or.mpr ⟨htext, hseparator⟩, ih htexts⟩

theorem not_mem_newline (indent : Nat) : '\r' ∉ (newline indent).toList := by
  simp [newline]

theorem not_mem_separator (indent : Nat) : '\r' ∉ (separator indent).toList := by
  simp [separator, newline]

mutual

/-- The text of a legible value has no carriage return. -/
theorem not_mem_indentedAt : (value : Json) → value.Legible → (indent : Nat) →
    '\r' ∉ (value.indentedAt indent).toList
  | null, _, indent => by simp [indentedAt]
  | boolean true, _, indent => by simp [indentedAt]
  | boolean false, _, indent => by simp [indentedAt]
  | integer n, h, indent => by
    rw [indentedAt, toList_toString_int, List.mem_append]
    rintro (hsign | hdigit)
    · split_ifs at hsign <;> simp at hsign
    · exact ne_of_isAsciiDigit (isAsciiDigit_of_mem_toDigits hdigit) rfl rfl
  | string s, _, indent => by
    rw [indentedAt]
    exact not_mem_stringText s
  | list [], _, indent => by simp [indentedAt]
  | list (item :: items), h, indent => by
    have hitems := not_mem_intercalate (not_mem_separator (indent + 2))
      (not_mem_indentedItems (item :: items) h (indent + 2))
    simp only [toList_indentedAt_list, List.mem_cons, List.mem_append, List.not_mem_nil, not_or]
    exact ⟨by decide, not_mem_newline _, hitems, not_mem_newline _, by decide⟩
  | object [], _, indent => by simp [indentedAt]
  | object (field :: fields), h, indent => by
    have hfields := not_mem_intercalate (not_mem_separator (indent + 2))
      (not_mem_indentedFields (field :: fields) h.2 (indent + 2))
    simp only [toList_indentedAt_object, List.mem_cons, List.mem_append, List.not_mem_nil, not_or]
    exact ⟨by decide, not_mem_newline _, hfields, not_mem_newline _, by decide⟩

theorem not_mem_indentedItems : (items : List Json) → LegibleItems items → (indent : Nat) →
    ∀ text ∈ indentedItems indent items, '\r' ∉ text.toList
  | [], _, _ => List.forall_mem_nil _
  | item :: items, h, indent =>
    List.forall_mem_cons.mpr
      ⟨not_mem_indentedAt item h.1 indent, not_mem_indentedItems items h.2 indent⟩

theorem not_mem_indentedFields : (fields : List (String × Json)) → LegibleFields fields →
    (indent : Nat) → ∀ text ∈ indentedFields indent fields, '\r' ∉ text.toList
  | [], _, _ => List.forall_mem_nil _
  | (name, value) :: fields, h, indent =>
    List.forall_mem_cons.mpr
      ⟨by simp [not_mem_stringText, not_mem_indentedAt value h.1 indent],
        not_mem_indentedFields fields h.2 indent⟩

end

end MonkeyLang.Json
