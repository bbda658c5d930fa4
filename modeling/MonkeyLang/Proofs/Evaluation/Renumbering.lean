import Mathlib.Tactic
import MonkeyLang.Proofs.Entries
import MonkeyLang.Proofs.Evaluation.Reachable
import MonkeyLang.Proofs.Scopes

/-!
# Frames under other numbers

The number of a frame says only which frame is meant. Nothing that a program can see depends on it:
the texts of a value, what operators and indexing make of it and whether it can be a key are the
same when the frames of its functions are given other numbers (`Value.renumber`).

Scopes are *well formed* if every outer frame is older than the frame it encloses, the frame of
every function exists, and the keys of every hash are distinct. A look-up in them ends before it has
walked through all frames, so allowing it more frames changes nothing. Scopes are *embedded* in
others along an injective numbering `ρ` if frame `i` of the first, with its contents renumbered, is
frame `ρ i` of the second, also for all frames still to be opened. There may be other frames
besides; they cannot be reached from the embedded ones (`Scopes.Embeds.reaches`).
-/

set_option autoImplicit false

namespace MonkeyLang

variable {ρ σ : FrameId → FrameId}

/-! ### Values -/

namespace Value

mutual

/-- The value with the frames of its functions under other numbers. -/
def renumber (ρ : FrameId → FrameId) : Value → Value
  | .function closure => .function { closure with frame := ρ closure.frame }
  | .returned value => .returned (value.renumber ρ)
  | .array elements => .array (renumberEach ρ elements)
  | .hash pairs => .hash (renumberPairs ρ pairs)
  | .integer n => .integer n
  | .string s => .string s
  | .boolean b => .boolean b
  | .null => .null
  | .builtin b => .builtin b
  | .error failure => .error failure

def renumberEach (ρ : FrameId → FrameId) : List Value → List Value
  | [] => []
  | value :: rest => value.renumber ρ :: renumberEach ρ rest

def renumberPairs (ρ : FrameId → FrameId) : List (Key × Value) → List (Key × Value)
  | [] => []
  | (key, value) :: rest => (key, value.renumber ρ) :: renumberPairs ρ rest

end

theorem renumberEach_eq_map (values : List Value) :
    renumberEach ρ values = values.map (renumber ρ) := by
  induction values with
  | nil => rfl
  | cons value rest ih => rw [renumberEach, ih, List.map_cons]

theorem renumberPairs_eq_mapValues (pairs : List (Key × Value)) :
    renumberPairs ρ pairs = Entries.mapValues (renumber ρ) pairs := by
  induction pairs with
  | nil => rfl
  | cons pair rest ih =>
    rw [renumberPairs, ih]
    rfl

theorem renumber_array (elements : List Value) :
    (array elements).renumber ρ = .array (elements.map (renumber ρ)) := by
  rw [renumber, renumberEach_eq_map]

theorem renumber_hash (pairs : List (Key × Value)) :
    (hash pairs).renumber ρ = .hash (Entries.mapValues (renumber ρ) pairs) := by
  rw [renumber, renumberPairs_eq_mapValues]

theorem renumber_of_isPlain {value : Value} (hplain : value.isPlain) :
    value.renumber ρ = value := by
  cases value with
  | integer | string | boolean | null | builtin | error => rfl
  | returned | function | array | hash => cases hplain

mutual

theorem text_renumber : (value : Value) → (value.renumber ρ).text = value.text
  | .returned value => text_renumber value
  | .array elements => by rw [renumber, text, text, textEach_renumberEach elements]
  | .hash pairs => by rw [renumber, text, text, textPairs_renumberPairs pairs]
  | .integer _ | .string _ | .boolean _ | .null | .function _ | .builtin _ | .error _ => rfl

theorem textEach_renumberEach : (values : List Value) →
    textEach (renumberEach ρ values) = textEach values
  | [] => rfl
  | value :: rest => by
    rw [renumberEach, textEach, textEach, text_renumber value, textEach_renumberEach rest]

theorem textPairs_renumberPairs : (pairs : List (Key × Value)) →
    textPairs (renumberPairs ρ pairs) = textPairs pairs
  | [] => rfl
  | (_, value) :: rest => by
    rw [renumberPairs, textPairs, textPairs, text_renumber value, textPairs_renumberPairs rest]

end

mutual

theorem obstacle?_renumber : (value : Value) → (value.renumber ρ).obstacle? = value.obstacle?
  | .returned value => funext fun room ↦ by
    rw [renumber, obstacle?, obstacle?, obstacle?_renumber value]
  | .array elements => funext fun room ↦ by
    rw [renumber, obstacle?, obstacle?, obstacleIn?_renumberEach elements]
  | .hash pairs => funext fun room ↦ by
    rw [renumber, obstacle?, obstacle?, obstacleInPairs?_renumberPairs pairs]
  | .integer _ | .string _ | .boolean _ | .null | .function _ | .builtin _ | .error _ => rfl

theorem obstacleIn?_renumberEach : (values : List Value) →
    obstacleIn? (renumberEach ρ values) = obstacleIn? values
  | [] => rfl
  | value :: rest => funext fun room ↦ by
    rw [renumberEach, obstacleIn?, obstacleIn?, obstacle?_renumber value,
      obstacleIn?_renumberEach rest]

theorem obstacleInPairs?_renumberPairs : (pairs : List (Key × Value)) →
    obstacleInPairs? (renumberPairs ρ pairs) = obstacleInPairs? pairs
  | [] => rfl
  | (_, value) :: rest => funext fun room ↦ by
    rw [renumberPairs, obstacleInPairs?, obstacleInPairs?, obstacle?_renumber value,
      obstacleInPairs?_renumberPairs rest]

end

mutual

theorem inspect_renumber : (value : Value) → (value.renumber ρ).inspect = value.inspect
  | .returned value => by rw [renumber, inspect, inspect, inspect_renumber value]
  | .array elements => by rw [renumber, inspect, inspect, inspectEach_renumberEach elements]
  | .hash pairs => by rw [renumber, inspect, inspect, inspectPairs_renumberPairs pairs]
  | .integer _ | .string _ | .boolean _ | .null | .function _ | .builtin _ | .error _ => rfl

theorem inspectEach_renumberEach : (values : List Value) →
    inspectEach (renumberEach ρ values) = inspectEach values
  | [] => rfl
  | value :: rest => by
    rw [renumberEach, inspectEach, inspectEach, inspect_renumber value,
      inspectEach_renumberEach rest]

theorem inspectPairs_renumberPairs : (pairs : List (Key × Value)) →
    inspectPairs (renumberPairs ρ pairs) = inspectPairs pairs
  | [] => rfl
  | (_, value) :: rest => by
    rw [renumberPairs, inspectPairs, inspectPairs, inspect_renumber value,
      inspectPairs_renumberPairs rest]

end

mutual

theorem inspectDepth_renumber :
    (value : Value) → (value.renumber ρ).inspectDepth = value.inspectDepth
  | .returned value => by rw [renumber, inspectDepth, inspectDepth, inspectDepth_renumber value]
  | .array elements => by
    rw [renumber, inspectDepth, inspectDepth, inspectDepthIn_renumberEach elements]
  | .hash pairs => by
    rw [renumber, inspectDepth, inspectDepth, inspectDepthInPairs_renumberPairs pairs]
  | .integer _ | .string _ | .boolean _ | .null | .function _ | .builtin _ | .error _ => rfl

theorem inspectDepthIn_renumberEach : (values : List Value) →
    inspectDepthIn (renumberEach ρ values) = inspectDepthIn values
  | [] => rfl
  | value :: rest => by
    rw [renumberEach, inspectDepthIn, inspectDepthIn, inspectDepth_renumber value,
      inspectDepthIn_renumberEach rest]

theorem inspectDepthInPairs_renumberPairs : (pairs : List (Key × Value)) →
    inspectDepthInPairs (renumberPairs ρ pairs) = inspectDepthInPairs pairs
  | [] => rfl
  | (_, value) :: rest => by
    rw [renumberPairs, inspectDepthInPairs, inspectDepthInPairs, inspectDepth_renumber value,
      inspectDepthInPairs_renumberPairs rest]

end

theorem key?_renumber (value : Value) : (value.renumber ρ).key? = value.key? := by
  cases value <;> rfl

theorem truthy_renumber (value : Value) : (value.renumber ρ).truthy = value.truthy := by
  cases value <;> rfl

theorem typeName_renumber (value : Value) : (value.renumber ρ).typeName = value.typeName := by
  cases value <;> rfl

theorem unary_renumber (operator : String) (right : Value) :
    unary operator (right.renumber ρ) = (unary operator right).renumber ρ := by
  rw [renumber_of_isPlain (isPlain_unary operator right)]
  by_cases hnot : operator = "!"
  · subst hnot
    rw [unary, unary, truthy_renumber]
  by_cases hminus : operator = "-"
  · subst hminus
    cases right <;> rfl
  have hunknown (value : Value) : unary operator value = unknownUnary operator value := by
    unfold unary
    split
    · exact absurd rfl hnot
    · exact absurd rfl hminus
    · rfl
  rw [hunknown, hunknown, unknownUnary, unknownUnary, typeName_renumber]

theorem binary_renumber (operator : String) (left right : Value) :
    binary operator (left.renumber ρ) (right.renumber ρ) =
      (binary operator left right).renumber ρ := by
  rw [renumber_of_isPlain (isPlain_binary operator left right)]
  cases left <;> cases right <;> rfl

theorem index_renumber (left place : Value) :
    index (left.renumber ρ) (place.renumber ρ) = (index left place).renumber ρ := by
  cases left with
  | array elements =>
    rw [renumber_array]
    cases place with
    | integer i =>
      show (if i < 0 then null else ((elements.map (renumber ρ))[i.toNat]?).getD null) =
        (if i < 0 then null else (elements[i.toNat]?).getD null).renumber ρ
      split_ifs
      · rfl
      · rw [List.getElem?_map]
        cases elements[i.toNat]? <;> rfl
    | _ => rfl
  | hash pairs =>
    rw [renumber_hash, index, index, key?_renumber, invalidHashKey, invalidHashKey,
      typeName_renumber]
    cases place.key? with
    | none => rfl
    | some key =>
      dsimp only
      rw [Entries.get?_mapValues]
      cases Entries.get? pairs key <;> rfl
  | _ => rfl

/-! ### Values that are formed -/

/-- The frame of a function is one of the first `size` ones, and a hash has distinct keys. -/
def IsFormed (size : Nat) : Value → Prop
  | .function closure => closure.frame < size
  | .hash pairs => (Entries.keys pairs).Nodup
  | _ => True

variable {size grown : Nat}

theorem isFormed_of_isPlain {value : Value} (hplain : value.isPlain) : value.IsFormed size := by
  cases value with
  | integer | string | boolean | null | builtin | error => trivial
  | returned | function | array | hash => cases hplain

theorem formed_of_isPlain {value : Value} (hplain : value.isPlain) :
    value.All (IsFormed size) :=
  all_of_isPlain hplain (isFormed_of_isPlain hplain)

theorem formed_array_iff {elements : List Value} :
    (array elements).All (IsFormed size) ↔ ∀ element ∈ elements, element.All (IsFormed size) :=
  all_array_iff.trans (and_iff_right trivial)

theorem formed_hash_iff {pairs : List (Key × Value)} :
    (hash pairs).All (IsFormed size) ↔
      (Entries.keys pairs).Nodup ∧ ∀ pair ∈ pairs, pair.2.All (IsFormed size) := by
  refine all_hash_iff.trans (and_congr_right fun _ ↦ forall₂_congr fun pair _ ↦ ?_)
  exact and_iff_right (isFormed_of_isPlain (isPlain_toValue pair.1))

theorem formed_returned_iff {value : Value} :
    (returned value).All (IsFormed size) ↔ value.All (IsFormed size) :=
  all_returned_iff.trans (and_iff_right trivial)

theorem formed_mono (hsize : size ≤ grown) {value : Value} (h : value.All (IsFormed size)) :
    value.All (IsFormed grown) := by
  refine h.mono fun part hpart ↦ ?_
  cases part with
  | function closure => exact Nat.lt_of_lt_of_le hpart hsize
  | hash pairs => exact hpart
  | _ => trivial

mutual

/-- Only the numbers of frames that exist matter. -/
theorem renumber_congr (h : ∀ frame < size, ρ frame = σ frame) : (value : Value) →
    value.All (IsFormed size) → value.renumber ρ = value.renumber σ
  | .function closure, hformed => by
    rw [renumber, renumber, h closure.frame hformed]
  | .returned value, hformed => by
    rw [renumber, renumber, renumber_congr h value hformed.2]
  | .array elements, hformed => by
    rw [renumber, renumber, renumberEach_congr h elements hformed.2]
  | .hash pairs, hformed => by
    rw [renumber, renumber, renumberPairs_congr h pairs hformed.2]
  | .integer _, _ | .string _, _ | .boolean _, _ | .null, _ | .builtin _, _ | .error _, _ => rfl

theorem renumberEach_congr (h : ∀ frame < size, ρ frame = σ frame) : (values : List Value) →
    AllIn (IsFormed size) values → renumberEach ρ values = renumberEach σ values
  | [], _ => rfl
  | value :: rest, hformed => by
    rw [renumberEach, renumberEach, renumber_congr h value hformed.1,
      renumberEach_congr h rest hformed.2]

theorem renumberPairs_congr (h : ∀ frame < size, ρ frame = σ frame) :
    (pairs : List (Key × Value)) → AllInPairs (IsFormed size) pairs →
      renumberPairs ρ pairs = renumberPairs σ pairs
  | [], _ => rfl
  | (_, value) :: rest, hformed => by
    rw [renumberPairs, renumberPairs, renumber_congr h value hformed.2.1,
      renumberPairs_congr h rest hformed.2.2]

end

mutual

theorem renumber_id : (value : Value) → value.renumber id = value
  | .returned value => by rw [renumber, renumber_id value]
  | .array elements => by rw [renumber, renumberEach_id elements]
  | .hash pairs => by rw [renumber, renumberPairs_id pairs]
  | .integer _ | .string _ | .boolean _ | .null | .function _ | .builtin _ | .error _ => rfl

theorem renumberEach_id : (values : List Value) → renumberEach id values = values
  | [] => rfl
  | value :: rest => by rw [renumberEach, renumber_id value, renumberEach_id rest]

theorem renumberPairs_id : (pairs : List (Key × Value)) → renumberPairs id pairs = pairs
  | [] => rfl
  | (_, value) :: rest => by rw [renumberPairs, renumber_id value, renumberPairs_id rest]

end

/-- A function in a renumbered value has a renumbered frame. -/
theorem Occurs.exists_frame {closure : Closure} {value : Value}
    (h : (function closure).Occurs (value.renumber ρ)) : ∃ frame, ρ frame = closure.frame := by
  generalize htarget : value.renumber ρ = target at h
  induction h generalizing value with
  | self =>
    cases value with
    | function inner =>
      obtain rfl := Value.function.inj htarget
      exact ⟨inner.frame, rfl⟩
    | _ => cases htarget
  | element hmem _ ih =>
    cases value with
    | array elements =>
      rw [renumber_array] at htarget
      obtain rfl := Value.array.inj htarget
      obtain ⟨element, -, helement⟩ := List.mem_map.mp hmem
      exact ih helement
    | _ => cases htarget
  | key hmem heq =>
    rename_i pair
    cases hkey : pair.1 <;> rw [hkey] at heq <;> cases heq
  | value hmem _ ih =>
    cases value with
    | hash pairs =>
      rw [renumber_hash] at htarget
      obtain rfl := Value.hash.inj htarget
      obtain ⟨pair, -, rfl⟩ := List.mem_map.mp hmem
      exact ih rfl
    | _ => cases htarget
  | returned _ ih =>
    cases value with
    | returned inner => exact ih (Value.returned.inj htarget)
    | _ => cases htarget

end Value

/-! ### Frames -/

namespace Frame

def renumber (ρ : FrameId → FrameId) (frame : Frame) : Frame where
  bindings := Entries.mapValues (Value.renumber ρ) frame.bindings
  outer := frame.outer.map ρ

theorem renumber_id (frame : Frame) : frame.renumber id = frame := by
  have hvalues : (Prod.map id (Value.renumber id) : String × Value → String × Value) = id :=
    funext fun binding ↦ congrArg (Prod.mk binding.1) (Value.renumber_id binding.2)
  rw [renumber, Entries.mapValues, hvalues, List.map_id, Option.map_id, id]

/-- Only the numbers of frames that exist matter. -/
theorem renumber_congr {size : Nat} (h : ∀ frame < size, ρ frame = σ frame) {here : Frame}
    (hbindings : ∀ binding ∈ here.bindings, binding.2.All (Value.IsFormed size))
    (houter : ∀ enclosing ∈ here.outer, enclosing < size) :
    here.renumber ρ = here.renumber σ := by
  have hvalues : Entries.mapValues (Value.renumber ρ) here.bindings =
      Entries.mapValues (Value.renumber σ) here.bindings :=
    List.map_congr_left fun binding hmem ↦ congrArg (Prod.mk binding.1)
      (Value.renumber_congr h binding.2 (hbindings binding hmem))
  rw [renumber, renumber, hvalues]
  cases heq : here.outer with
  | none => rfl
  | some enclosing => rw [Option.map_some, Option.map_some, h enclosing (houter enclosing heq)]

theorem get?_renumber (frame : Frame) (name : String) :
    (frame.renumber ρ).get? name = (frame.get? name).map (Value.renumber ρ) :=
  Entries.get?_mapValues _ _ _

theorem set_renumber (frame : Frame) (name : String) (value : Value) :
    (frame.renumber ρ).set name (value.renumber ρ) = (frame.set name value).renumber ρ := by
  rw [set, set, renumber, renumber, Entries.put_mapValues]

end Frame

/-! ### Well-formed scopes -/

namespace Scopes

/-- An outer frame is older than the frame that it encloses, and what the frames bind is formed. -/
structure WellFormed (scopes : Scopes) : Prop where
  outer : ∀ {frame : FrameId} {here : Frame}, scopes.frames[frame]? = some here →
    ∀ enclosing ∈ here.outer, enclosing < frame
  bindings : scopes.AllBindings (Value.All (Value.IsFormed scopes.frames.size))

theorem size_set (scopes : Scopes) (frame : FrameId) (name : String) (value : Value) :
    (scopes.set frame name value).frames.size = scopes.frames.size :=
  Array.size_modify

theorem size_newFrame (scopes : Scopes) (outer : Option FrameId) :
    (scopes.newFrame outer).2.frames.size = scopes.frames.size + 1 :=
  Array.size_push _

theorem getElem?_newFrame_size (scopes : Scopes) (outer : Option FrameId) :
    (scopes.newFrame outer).2.frames[scopes.frames.size]? = some { outer } :=
  Array.getElem?_push_size

variable {scopes : Scopes}

theorem lt_size_of_getElem? {frame : FrameId} {here : Frame}
    (h : scopes.frames[frame]? = some here) : frame < scopes.frames.size :=
  (Array.getElem?_eq_some_iff.mp h).1

theorem getWithin_of_none {name : String} {frame : FrameId} (h : scopes.frames[frame]? = none)
    {bound : Nat} : scopes.getWithin name bound frame = none := by
  cases bound with
  | zero => rfl
  | succ bound => rw [getWithin, h]

namespace WellFormed

theorem outerOlder (h : scopes.WellFormed) : scopes.OuterOlder :=
  fun _ _ hhere ↦ h.outer hhere

theorem set (h : scopes.WellFormed) (frame : FrameId) (name : String) {value : Value}
    (hvalue : value.All (Value.IsFormed scopes.frames.size)) :
    (scopes.set frame name value).WellFormed where
  outer hhere := h.outerOlder.set frame name value hhere
  bindings := by
    rw [size_set]
    exact h.bindings.set frame name hvalue

theorem push (h : scopes.WellFormed) {last : Frame}
    (houter : ∀ enclosing ∈ last.outer, enclosing < scopes.frames.size)
    (hbindings : ∀ binding ∈ last.bindings,
      binding.2.All (Value.IsFormed scopes.frames.size)) :
    WellFormed ⟨scopes.frames.push last⟩ where
  outer hhere := h.outerOlder.push houter hhere
  bindings := by
    have hgrown {found : Value} (hfound : found.All (Value.IsFormed scopes.frames.size)) :
        found.All (Value.IsFormed (scopes.frames.push last).size) := by
      rw [Array.size_push]
      exact Value.formed_mono (Nat.le_succ _) hfound
    intro here hhere binding hbinding
    rcases Array.mem_push.mp hhere with hhere | rfl
    · exact hgrown (h.bindings here hhere binding hbinding)
    · exact hgrown (hbindings binding hbinding)

theorem newFrame (h : scopes.WellFormed) {enclosing : FrameId}
    (houter : enclosing < scopes.frames.size) :
    (scopes.newFrame (some enclosing)).2.WellFormed := by
  refine h.push ?_ (List.forall_mem_nil _)
  rintro inner ⟨⟩
  exact houter

/-- Only the numbers of frames that exist matter. -/
theorem renumber_congr (h : scopes.WellFormed)
    (hagree : ∀ frame < scopes.frames.size, ρ frame = σ frame) (frame : FrameId) :
    (scopes.frames[frame]?).map (Frame.renumber ρ) =
      (scopes.frames[frame]?).map (Frame.renumber σ) := by
  cases hhere : scopes.frames[frame]? with
  | none => rfl
  | some here =>
    refine congrArg some (Frame.renumber_congr hagree ?_ fun enclosing henclosing ↦ ?_)
    · exact h.bindings here (Array.mem_of_getElem? hhere)
    · exact (h.outer hhere enclosing henclosing).trans (lt_size_of_getElem? hhere)

/-- Allowing a look-up more frames than there are changes nothing. -/
theorem getWithin_eq_get? (h : scopes.WellFormed) (name : String) {bound : Nat}
    (hbound : scopes.frames.size ≤ bound) (frame : FrameId) :
    scopes.getWithin name bound frame = scopes.get? frame name := by
  by_cases hframe : frame < scopes.frames.size
  · obtain ⟨chain, hchain, hlength, hget⟩ := h.outerOlder.exists_chain_get? hframe
    rw [hget, hchain.getWithin_eq_findSome? name (hlength.trans hbound)]
  · have hnone : scopes.frames[frame]? = none := Array.getElem?_eq_none (not_lt.mp hframe)
    rw [Scopes.get?, getWithin_of_none hnone, getWithin_of_none hnone]

theorem formed_of_get? (h : scopes.WellFormed) {frame : FrameId} {name : String} {value : Value}
    (hget : scopes.get? frame name = some value) :
    value.All (Value.IsFormed scopes.frames.size) :=
  h.bindings.get? hget

end WellFormed

theorem wellFormed_start : Machine.start.scopes.WellFormed where
  outer {frame here} hhere := by
    have hframe : frame = 0 := Nat.lt_one_iff.mp (lt_size_of_getElem? hhere)
    subst hframe
    obtain rfl := Option.some.inj hhere
    exact nofun
  bindings := allBindings_start _

/-! ### Embedded scopes -/

/-- The frames of the first scopes stand in the second ones under other numbers, and go on to do so
when frames are opened in both. -/
structure Embeds (ρ : FrameId → FrameId) (scopes scopes' : Scopes) : Prop where
  injective : Function.Injective ρ
  frames : ∀ frame, scopes'.frames[ρ frame]? = (scopes.frames[frame]?).map (Frame.renumber ρ)
  fresh : ∀ more, ρ (scopes.frames.size + more) = scopes'.frames.size + more
  size_le : scopes.frames.size ≤ scopes'.frames.size

theorem embeds_self (scopes : Scopes) : scopes.Embeds id scopes where
  injective := Function.injective_id
  frames frame := by
    rw [funext Frame.renumber_id, Option.map_id']
    rfl
  fresh _ := rfl
  size_le := le_rfl

namespace Embeds

variable {scopes' : Scopes}

theorem getWithin (h : scopes.Embeds ρ scopes') (name : String) (bound : Nat) (frame : FrameId) :
    scopes'.getWithin name bound (ρ frame) =
      (scopes.getWithin name bound frame).map (Value.renumber ρ) := by
  induction bound generalizing frame with
  | zero => rfl
  | succ bound ih =>
    rw [Scopes.getWithin, Scopes.getWithin, h.frames]
    cases scopes.frames[frame]? with
    | none => rfl
    | some here =>
      rw [Option.map_some]
      dsimp only
      rw [Frame.get?_renumber]
      cases here.get? name with
      | some value => rfl
      | none =>
        rw [Option.map_none, Frame.renumber]
        cases here.outer with
        | none => rfl
        | some enclosing => exact ih enclosing

theorem get? (h : scopes.Embeds ρ scopes') (hformed : scopes.WellFormed) (frame : FrameId)
    (name : String) :
    scopes'.get? (ρ frame) name = (scopes.get? frame name).map (Value.renumber ρ) := by
  rw [Scopes.get?, h.getWithin, hformed.getWithin_eq_get? name h.size_le]

theorem set (h : scopes.Embeds ρ scopes') (frame : FrameId) (name : String) (value : Value) :
    (scopes.set frame name value).Embeds ρ
      (scopes'.set (ρ frame) name (value.renumber ρ)) where
  injective := h.injective
  frames other := by
    rw [getElem?_set, getElem?_set, h.frames]
    by_cases hother : frame = other
    · subst hother
      rw [if_pos rfl, if_pos rfl]
      cases scopes.frames[frame]? with
      | none => rfl
      | some here => exact congrArg some (Frame.set_renumber here name value)
    · rw [if_neg (h.injective.ne hother), if_neg hother]
  fresh more := by
    rw [size_set, size_set]
    exact h.fresh more
  size_le := by
    rw [size_set, size_set]
    exact h.size_le

/-- A frame that is not embedded may change. -/
theorem set_outside (h : scopes.Embeds ρ scopes') {target : FrameId}
    (htarget : ∀ frame, ρ frame ≠ target) (name : String) (value : Value) :
    scopes.Embeds ρ (scopes'.set target name value) where
  injective := h.injective
  frames other := by
    rw [getElem?_set, if_neg (Ne.symm (htarget other)), h.frames]
  fresh more := by
    rw [size_set]
    exact h.fresh more
  size_le := by
    rw [size_set]
    exact h.size_le

theorem newFrame (h : scopes.Embeds ρ scopes') (enclosing : FrameId) :
    (scopes.newFrame (some enclosing)).2.Embeds ρ
      (scopes'.newFrame (some (ρ enclosing))).2 where
  injective := h.injective
  frames other := by
    have hfresh : ρ scopes.frames.size = scopes'.frames.size := h.fresh 0
    rw [Scopes.newFrame, Scopes.newFrame, Array.getElem?_push, Array.getElem?_push, ← hfresh]
    by_cases hother : other = scopes.frames.size
    · rw [if_pos (congrArg ρ hother), if_pos hother]
      rfl
    · rw [if_neg (h.injective.ne hother), if_neg hother, h.frames]
  fresh more := by
    rw [size_newFrame, size_newFrame, Nat.add_right_comm, Nat.add_assoc, h.fresh, ← Nat.add_assoc,
      Nat.add_right_comm]
  size_le := by
    rw [size_newFrame, size_newFrame]
    exact Nat.succ_le_succ h.size_le

/-- The embedded frames are not left along outer frames and functions. -/
theorem reaches (h : scopes.Embeds ρ scopes') {roots : FrameId → Prop}
    (hroots : ∀ frame, roots frame → ∃ inner, ρ inner = frame) {frame : FrameId}
    (hframe : scopes'.Reaches roots frame) : ∃ inner, ρ inner = frame := by
  induction hframe with
  | root hroot => exact hroots _ hroot
  | outer _ hhere houter ih =>
    obtain ⟨inner, rfl⟩ := ih
    rw [h.frames] at hhere
    obtain ⟨here, -, rfl⟩ := Option.map_eq_some_iff.mp hhere
    obtain ⟨enclosing, -, hrenumber⟩ := Option.map_eq_some_iff.mp houter
    exact ⟨enclosing, hrenumber⟩
  | function _ hhere hbinding hclosure ih =>
    obtain ⟨inner, rfl⟩ := ih
    rw [h.frames] at hhere
    obtain ⟨here, -, rfl⟩ := Option.map_eq_some_iff.mp hhere
    obtain ⟨binding, -, rfl⟩ := List.mem_map.mp hbinding
    exact hclosure.exists_frame

end Embeds

end Scopes

end MonkeyLang
