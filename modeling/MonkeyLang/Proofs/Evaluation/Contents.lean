import Mathlib.Tactic
import MonkeyLang.Proofs.Evaluation.Invariant

/-!
# What values and variables hold

`Value.All p` says that a property holds of a value and of everything inside it: the elements of an
array, the keys and values of a hash, and a returned value. `Scopes.AllBindings` says it of every
binding of every frame. Writing a value that has the property, opening a frame and looking a name up
keep to it.

The results of operators are plain values, which have nothing inside; indexing gives one of those,
or a part of what is indexed.
-/

set_option autoImplicit false

namespace MonkeyLang

/-! ### Values -/

namespace Value

mutual

/-- The property holds of the value and of all values inside it. -/
def All (p : Value → Prop) : Value → Prop
  | .array elements => p (.array elements) ∧ AllIn p elements
  | .hash pairs => p (.hash pairs) ∧ AllInPairs p pairs
  | .returned value => p (.returned value) ∧ value.All p
  | value => p value

def AllIn (p : Value → Prop) : List Value → Prop
  | [] => True
  | value :: rest => value.All p ∧ AllIn p rest

def AllInPairs (p : Value → Prop) : List (Key × Value) → Prop
  | [] => True
  | (key, value) :: rest => p key.toValue ∧ value.All p ∧ AllInPairs p rest

end

mutual

/-- A property that can be decided of single values can be decided throughout. -/
def decideAll (p : Value → Prop) [DecidablePred p] : (value : Value) → Decidable (value.All p)
  | .array elements =>
    have := decideAllIn p elements
    inferInstanceAs (Decidable (p (.array elements) ∧ AllIn p elements))
  | .hash pairs =>
    have := decideAllInPairs p pairs
    inferInstanceAs (Decidable (p (.hash pairs) ∧ AllInPairs p pairs))
  | .returned value =>
    have := decideAll p value
    inferInstanceAs (Decidable (p (.returned value) ∧ value.All p))
  | .integer n => inferInstanceAs (Decidable (p (.integer n)))
  | .string s => inferInstanceAs (Decidable (p (.string s)))
  | .boolean b => inferInstanceAs (Decidable (p (.boolean b)))
  | .null => inferInstanceAs (Decidable (p .null))
  | .function closure => inferInstanceAs (Decidable (p (.function closure)))
  | .builtin b => inferInstanceAs (Decidable (p (.builtin b)))
  | .error failure => inferInstanceAs (Decidable (p (.error failure)))

def decideAllIn (p : Value → Prop) [DecidablePred p] :
    (values : List Value) → Decidable (AllIn p values)
  | [] => inferInstanceAs (Decidable True)
  | value :: rest =>
    have := decideAll p value
    have := decideAllIn p rest
    inferInstanceAs (Decidable (value.All p ∧ AllIn p rest))

def decideAllInPairs (p : Value → Prop) [DecidablePred p] :
    (pairs : List (Key × Value)) → Decidable (AllInPairs p pairs)
  | [] => inferInstanceAs (Decidable True)
  | (key, value) :: rest =>
    have := decideAll p value
    have := decideAllInPairs p rest
    inferInstanceAs (Decidable (p key.toValue ∧ value.All p ∧ AllInPairs p rest))

end

instance (p : Value → Prop) [DecidablePred p] : DecidablePred (All p) :=
  decideAll p

/-- A value with no other value inside that is no function either. -/
def isPlain : Value → Bool
  | .integer _ | .string _ | .boolean _ | .null | .builtin _ | .error _ => true
  | .returned _ | .function _ | .array _ | .hash _ => false

variable {p : Value → Prop}

theorem allIn_iff {values : List Value} : AllIn p values ↔ ∀ value ∈ values, value.All p := by
  induction values with
  | nil => simp [AllIn]
  | cons value rest ih => rw [AllIn, ih, List.forall_mem_cons]

theorem allInPairs_iff {pairs : List (Key × Value)} :
    AllInPairs p pairs ↔ ∀ pair ∈ pairs, p pair.1.toValue ∧ pair.2.All p := by
  induction pairs with
  | nil => simp [AllInPairs]
  | cons pair rest ih => rw [AllInPairs, ih, List.forall_mem_cons, and_assoc]

theorem all_array_iff {elements : List Value} :
    (array elements).All p ↔ p (.array elements) ∧ ∀ element ∈ elements, element.All p := by
  rw [All, allIn_iff]

theorem all_hash_iff {pairs : List (Key × Value)} :
    (hash pairs).All p ↔
      p (.hash pairs) ∧ ∀ pair ∈ pairs, p pair.1.toValue ∧ pair.2.All p := by
  rw [All, allInPairs_iff]

theorem all_returned_iff {value : Value} :
    (returned value).All p ↔ p (.returned value) ∧ value.All p := by
  rw [All]

theorem all_function_iff {closure : Closure} :
    (function closure).All p ↔ p (.function closure) := by
  rw [All]
  all_goals exact nofun

theorem all_of_isPlain {value : Value} (hplain : value.isPlain) (hp : p value) : value.All p := by
  cases value with
  | integer | string | boolean | null | builtin | error => exact hp
  | returned | function | array | hash => cases hplain

theorem All.self {value : Value} (h : value.All p) : p value := by
  cases value with
  | array elements => exact (all_array_iff.mp h).1
  | hash pairs => exact (all_hash_iff.mp h).1
  | returned value => exact (all_returned_iff.mp h).1
  | function closure => exact all_function_iff.mp h
  | integer | string | boolean | null | builtin | error => exact h

mutual

theorem All.mono {weaker : Value → Prop} (hweaker : ∀ value, p value → weaker value) :
    (value : Value) → value.All p → value.All weaker
  | .array elements, h => ⟨hweaker _ h.1, AllIn.mono hweaker elements h.2⟩
  | .hash pairs, h => ⟨hweaker _ h.1, AllInPairs.mono hweaker pairs h.2⟩
  | .returned value, h => ⟨hweaker _ h.1, All.mono hweaker value h.2⟩
  | .integer _, h | .string _, h | .boolean _, h | .null, h | .function _, h | .builtin _, h
  | .error _, h => hweaker _ h

theorem AllIn.mono {weaker : Value → Prop} (hweaker : ∀ value, p value → weaker value) :
    (values : List Value) → AllIn p values → AllIn weaker values
  | [], _ => trivial
  | value :: rest, h => ⟨All.mono hweaker value h.1, AllIn.mono hweaker rest h.2⟩

theorem AllInPairs.mono {weaker : Value → Prop} (hweaker : ∀ value, p value → weaker value) :
    (pairs : List (Key × Value)) → AllInPairs p pairs → AllInPairs weaker pairs
  | [], _ => trivial
  | (_, value) :: rest, h =>
    ⟨hweaker _ h.1, All.mono hweaker value h.2.1, AllInPairs.mono hweaker rest h.2.2⟩

end

theorem isPlain_toValue (key : Key) : key.toValue.isPlain := by
  cases key <;> rfl

/-! ### Operators -/

theorem isPlain_ofInt (n : Int) : (ofInt n).isPlain := by
  rw [ofInt]
  split_ifs <;> rfl

theorem isPlain_unary (operator : String) (right : Value) : (unary operator right).isPlain := by
  unfold unary
  split
  · rfl
  · exact isPlain_ofInt _
  · rfl

theorem isPlain_binary (operator : String) (left right : Value) :
    (binary operator left right).isPlain := by
  unfold binary
  split
  · unfold integerBinary
    split
    · exact isPlain_ofInt _
    · exact isPlain_ofInt _
    · exact isPlain_ofInt _
    · split
      · rfl
      · exact isPlain_ofInt _
    all_goals rfl
  · unfold booleanBinary
    split <;> rfl
  · unfold stringBinary
    split <;> rfl
  · rfl

/-- An error, nothing, an element of the array or a value of the hash. -/
theorem all_index_or_error (hnull : p .null) {left : Value} (hleft : left.All p)
    (place : Value) :
    (index left place).All p ∨ ∃ failure, index left place = .error failure := by
  have hnone : Value.null.All p := all_of_isPlain rfl hnull
  unfold index
  split
  · rename_i elements i
    left
    split_ifs
    · exact hnone
    · cases hget : elements[i.toNat]? with
      | none => exact hnone
      | some element =>
        exact (all_array_iff.mp hleft).2 element (List.mem_of_getElem? hget)
  · rename_i pairs
    split
    · rename_i key hkey
      left
      cases hget : Entries.get? pairs key with
      | none => exact hnone
      | some value => exact ((all_hash_iff.mp hleft).2 _ (Entries.mem_of_get? hget)).2
    · exact .inr ⟨_, rfl⟩
  · exact .inr ⟨_, rfl⟩

theorem all_index (hplain : ∀ value : Value, value.isPlain → p value) {left : Value}
    (hleft : left.All p) (place : Value) : (index left place).All p := by
  rcases all_index_or_error (hplain _ rfl) hleft place with hall | ⟨failure, herror⟩
  · exact hall
  · rw [herror]
    exact all_of_isPlain rfl (hplain _ rfl)

end Value

/-! ### Variables -/

namespace Scopes

/-- Every binding of every frame has the property. -/
def AllBindings (p : Value → Prop) (scopes : Scopes) : Prop :=
  ∀ frame ∈ scopes.frames, ∀ binding ∈ frame.bindings, p binding.2

instance (p : Value → Prop) [DecidablePred p] : DecidablePred (AllBindings p) :=
  fun scopes ↦ inferInstanceAs (Decidable (∀ frame ∈ scopes.frames, ∀ binding ∈ frame.bindings,
    p binding.2))

variable {p : Value → Prop} {scopes : Scopes}

theorem AllBindings.mono {weaker : Value → Prop} (h : scopes.AllBindings p)
    (hweaker : ∀ value, p value → weaker value) : scopes.AllBindings weaker :=
  fun frame hframe binding hbinding ↦ hweaker _ (h frame hframe binding hbinding)

theorem AllBindings.getWithin (h : scopes.AllBindings p) (name : String) (bound : Nat)
    {frame : FrameId} {value : Value} (hget : scopes.getWithin name bound frame = some value) :
    p value := by
  induction bound generalizing frame with
  | zero => cases hget
  | succ bound ih =>
    rw [Scopes.getWithin] at hget
    split at hget
    · cases hget
    · rename_i here hhere
      split at hget
      · rename_i found hfound
        obtain rfl := Option.some.inj hget
        exact h here (Array.mem_of_getElem? hhere) _ (Entries.mem_of_get? hfound)
      · split at hget
        · cases hget
        · exact ih hget

theorem AllBindings.get? (h : scopes.AllBindings p) {frame : FrameId} {name : String}
    {value : Value} (hget : scopes.get? frame name = some value) : p value :=
  h.getWithin name _ hget

theorem AllBindings.set (h : scopes.AllBindings p) (frame : FrameId) (name : String)
    {value : Value} (hvalue : p value) : (scopes.set frame name value).AllBindings p := by
  intro here hhere binding hbinding
  obtain ⟨other, hother⟩ := Array.mem_iff_getElem?.mp hhere
  rw [getElem?_set] at hother
  split_ifs at hother
  · obtain ⟨old, hold, rfl⟩ := Option.map_eq_some_iff.mp hother
    rcases Entries.mem_put hbinding with rfl | hbinding
    · exact hvalue
    · exact h old (Array.mem_of_getElem? hold) binding hbinding
  · exact h here (Array.mem_of_getElem? hother) binding hbinding

theorem AllBindings.newFrame (h : scopes.AllBindings p) (outer : Option FrameId) :
    (scopes.newFrame outer).2.AllBindings p := by
  intro here hhere binding hbinding
  rcases Array.mem_push.mp hhere with hhere | rfl
  · exact h here hhere binding hbinding
  · cases hbinding

/-- At the start there are no bindings. -/
theorem allBindings_start (p : Value → Prop) : Machine.start.scopes.AllBindings p := by
  have hempty : AllBindings p {} := fun frame hframe ↦ absurd hframe (Array.not_mem_empty _)
  exact hempty.newFrame none

end Scopes

end MonkeyLang
