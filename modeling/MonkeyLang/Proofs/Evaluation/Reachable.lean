import Mathlib.Tactic
import MonkeyLang.Proofs.Evaluation.Lockstep

/-!
# What a program can reach

A frame can be reached from another one along outer frames and along the functions that occur in
its bindings. A *region* is a set of frames that is closed under this and holds every frame that is
still to be opened. Scopes are sealed by a region if, inside it, every binding has a property
throughout; what stands outside of it does not matter, because no program that is started inside
ever leaves the region.

The frames that can be reached from some roots, together with the ones still to be opened, are such
a region (`Sealed.of_reachable`), and everything that can be reached afterwards is in it again
(`Sealed.reachable`). Running a program keeps scopes sealed (`lockstep_sealed`).
-/

set_option autoImplicit false

namespace MonkeyLang

/-! ### Values inside values -/

namespace Value

/-- A value is a part of another one: the value itself, or a part of an element, of a key, of a
value of a hash or of a wrapped value. -/
inductive Occurs (part : Value) : Value → Prop
  | self : Occurs part part
  | element {elements : List Value} {element : Value} (hmem : element ∈ elements)
    (h : Occurs part element) : Occurs part (.array elements)
  | key {pairs : List (Key × Value)} {pair : Key × Value} (hmem : pair ∈ pairs)
    (h : part = pair.1.toValue) : Occurs part (.hash pairs)
  | value {pairs : List (Key × Value)} {pair : Key × Value} (hmem : pair ∈ pairs)
    (h : Occurs part pair.2) : Occurs part (.hash pairs)
  | returned {inner : Value} (h : Occurs part inner) : Occurs part (.returned inner)

variable {p : Value → Prop}

theorem All.occurs {part value : Value} (h : value.All p) (hpart : part.Occurs value) : p part := by
  induction hpart with
  | self => exact h.self
  | element hmem _ ih => exact ih ((all_array_iff.mp h).2 _ hmem)
  | key hmem heq =>
    rw [heq]
    exact ((all_hash_iff.mp h).2 _ hmem).1
  | value hmem _ ih => exact ih ((all_hash_iff.mp h).2 _ hmem).2
  | returned _ ih => exact ih (all_returned_iff.mp h).2

mutual

theorem all_of_occurs : (value : Value) → (∀ part, part.Occurs value → p part) → value.All p
  | .array elements, h =>
    ⟨h _ .self, allIn_of_occurs elements fun _ hmem part hpart ↦ h part (.element hmem hpart)⟩
  | .hash pairs, h =>
    ⟨h _ .self, allInPairs_of_occurs pairs (fun _ hmem ↦ h _ (.key hmem rfl))
      fun _ hmem part hpart ↦ h part (.value hmem hpart)⟩
  | .returned value, h =>
    ⟨h _ .self, all_of_occurs value fun part hpart ↦ h part (.returned hpart)⟩
  | .integer _, h | .string _, h | .boolean _, h | .null, h | .function _, h | .builtin _, h
  | .error _, h => h _ .self

theorem allIn_of_occurs : (values : List Value) →
    (∀ value ∈ values, ∀ part, part.Occurs value → p part) → AllIn p values
  | [], _ => trivial
  | value :: rest, h =>
    ⟨all_of_occurs value (h value (.head _)),
      allIn_of_occurs rest fun other hmem ↦ h other (.tail _ hmem)⟩

theorem allInPairs_of_occurs : (pairs : List (Key × Value)) →
    (∀ pair ∈ pairs, p pair.1.toValue) →
      (∀ pair ∈ pairs, ∀ part, part.Occurs pair.2 → p part) → AllInPairs p pairs
  | [], _, _ => trivial
  | (key, value) :: rest, hkeys, h =>
    ⟨hkeys (key, value) (.head _), all_of_occurs value (h (key, value) (.head _)),
      allInPairs_of_occurs rest (fun other hmem ↦ hkeys other (.tail _ hmem))
        fun other hmem ↦ h other (.tail _ hmem)⟩

end

end Value

/-! ### Frames that can be reached -/

namespace Scopes

/-- A frame can be reached from the roots. -/
inductive Reaches (scopes : Scopes) (roots : FrameId → Prop) : FrameId → Prop
  | root {frame : FrameId} (hroot : roots frame) : Reaches scopes roots frame
  | outer {frame enclosing : FrameId} {here : Frame} (h : Reaches scopes roots frame)
    (hhere : scopes.frames[frame]? = some here) (houter : here.outer = some enclosing) :
    Reaches scopes roots enclosing
  | function {frame : FrameId} {here : Frame} {binding : String × Value} {closure : Closure}
    (h : Reaches scopes roots frame) (hhere : scopes.frames[frame]? = some here)
    (hbinding : binding ∈ here.bindings) (hclosure : (Value.function closure).Occurs binding.2) :
    Reaches scopes roots closure.frame

/-- Every binding that can be reached has the property throughout. -/
def AllReachable (p : Value → Prop) (roots : FrameId → Prop) (scopes : Scopes) : Prop :=
  ∀ frame here, scopes.Reaches roots frame → scopes.frames[frame]? = some here →
    ∀ binding ∈ here.bindings, binding.2.All p

variable {p q : Value → Prop} {roots region : FrameId → Prop} {scopes : Scopes}

theorem AllReachable.mono (h : scopes.AllReachable p roots) (hpq : ∀ value, p value → q value) :
    scopes.AllReachable q roots :=
  fun frame here hframe hhere binding hbinding ↦
    (h frame here hframe hhere binding hbinding).mono hpq

theorem AllBindings.allReachable (h : scopes.AllBindings (Value.All p)) (roots : FrameId → Prop) :
    scopes.AllReachable p roots :=
  fun _ here _ hhere ↦ h here (Array.mem_of_getElem? hhere)

/-- At the start there is nothing to be reached. -/
theorem allReachable_start (p : Value → Prop) (roots : FrameId → Prop) :
    Machine.start.scopes.AllReachable p roots :=
  (allBindings_start _).allReachable roots

/-- The region holds all new frames, and is not left from inside of it. -/
structure Sealed (p : Value → Prop) (region : FrameId → Prop) (scopes : Scopes) : Prop where
  fresh : ∀ frame, scopes.frames.size ≤ frame → region frame
  outer : ∀ {frame : FrameId} {here : Frame}, region frame → scopes.frames[frame]? = some here →
    ∀ enclosing ∈ here.outer, region enclosing
  bindings : ∀ {frame : FrameId} {here : Frame}, region frame →
    scopes.frames[frame]? = some here → ∀ binding ∈ here.bindings, binding.2.All p

namespace Sealed

theorem getWithin (h : scopes.Sealed p region) (name : String) (bound : Nat) {frame : FrameId}
    (hframe : region frame) {value : Value}
    (hget : scopes.getWithin name bound frame = some value) : value.All p := by
  induction bound generalizing frame with
  | zero => cases hget
  | succ bound ih =>
    rw [Scopes.getWithin] at hget
    split at hget
    · cases hget
    · rename_i here hhere
      split at hget
      · rename_i found hfound
        obtain rfl := Option.some.inj hget
        exact h.bindings hframe hhere _ (Entries.mem_of_get? hfound)
      · split at hget
        · cases hget
        · rename_i enclosing houter
          exact ih (h.outer hframe hhere enclosing houter) hget

theorem get? (h : scopes.Sealed p region) {frame : FrameId} (hframe : region frame) {name : String}
    {value : Value} (hget : scopes.get? frame name = some value) : value.All p :=
  h.getWithin name _ hframe hget

theorem set (h : scopes.Sealed p region) (frame : FrameId) (name : String) {value : Value}
    (hvalue : value.All p) : (scopes.set frame name value).Sealed p region where
  fresh other hother := by
    rw [Scopes.set, Array.size_modify] at hother
    exact h.fresh other hother
  outer {other here} hregion hhere := by
    rw [getElem?_set] at hhere
    split_ifs at hhere
    · obtain ⟨old, hold, rfl⟩ := Option.map_eq_some_iff.mp hhere
      show ∀ enclosing ∈ old.outer, region enclosing
      exact h.outer hregion hold
    · exact h.outer hregion hhere
  bindings {other here} hregion hhere binding hbinding := by
    rw [getElem?_set] at hhere
    split_ifs at hhere
    · obtain ⟨old, hold, rfl⟩ := Option.map_eq_some_iff.mp hhere
      rcases Entries.mem_put hbinding with rfl | hbinding
      · exact hvalue
      · exact h.bindings hregion hold binding hbinding
    · exact h.bindings hregion hhere binding hbinding

theorem newFrame (h : scopes.Sealed p region) {enclosing : FrameId} (houter : region enclosing) :
    (scopes.newFrame (some enclosing)).2.Sealed p region ∧
      region (scopes.newFrame (some enclosing)).1 := by
  refine ⟨⟨fun other hother ↦ ?_, fun {other here} hregion hhere ↦ ?_,
    fun {other here} hregion hhere ↦ ?_⟩, h.fresh _ le_rfl⟩
  · rw [Scopes.newFrame, Array.size_push] at hother
    exact h.fresh other (Nat.le_of_succ_le hother)
  · rw [Scopes.newFrame, Array.getElem?_push] at hhere
    split_ifs at hhere
    · obtain rfl := Option.some.inj hhere
      rintro inner ⟨⟩
      exact houter
    · exact h.outer hregion hhere
  · rw [Scopes.newFrame, Array.getElem?_push] at hhere
    split_ifs at hhere
    · obtain rfl := Option.some.inj hhere
      exact List.forall_mem_nil _
    · exact h.bindings hregion hhere

end Sealed

end Scopes

/-! ### Running programs inside a region -/

open Evaluation

/-- Errors occur only if they may, and functions only from the region and with allowed bodies. -/
def Value.IsSound (errors : Prop) (node : Node → Prop) (region : FrameId → Prop) : Value → Prop
  | .error _ => errors
  | .function closure => region closure.frame ∧ closure.body.Every node
  | _ => True

/-- What occurs inside a region. -/
def Evaluation.Domain.inside (errors : Prop) (node : Node → Prop) (region : FrameId → Prop) :
    Domain where
  node := node
  value := Value.All (Value.IsSound errors node region)
  frame := region
  value_of_isPlain {found} hplain herror := by
    refine Value.all_of_isPlain hplain ?_
    cases found with
    | error failure => cases herror
    | function closure => cases hplain
    | _ => trivial
  returned_iff := Value.all_returned_iff.trans (and_iff_right trivial)
  function_iff := Value.all_function_iff
  array_iff := Value.all_array_iff.trans (and_iff_right trivial)
  hash_iff {pairs} := by
    refine Value.all_hash_iff.trans ((and_iff_right trivial).trans ?_)
    refine forall₂_congr fun pair _ ↦ and_iff_right ?_
    cases pair.1 <;> trivial

variable {errors : Prop} {node : Node → Prop} {roots region : FrameId → Prop} {scopes : Scopes}

namespace Scopes

/-- A frame that can be reached, or that is still to be opened. -/
def Available (scopes : Scopes) (roots : FrameId → Prop) (frame : FrameId) : Prop :=
  scopes.Reaches roots frame ∨ scopes.frames.size ≤ frame

/-- The available frames are a region. -/
theorem Sealed.of_reachable
    (h : scopes.AllReachable (Value.IsSound errors node fun _ ↦ True) roots) :
    scopes.Sealed (Value.IsSound errors node (scopes.Available roots))
      (scopes.Available roots) := by
  have hreached {frame : FrameId} {here : Frame} (hregion : scopes.Available roots frame)
      (hhere : scopes.frames[frame]? = some here) : scopes.Reaches roots frame := by
    refine hregion.resolve_right fun hsize ↦ ?_
    rw [Array.getElem?_eq_none hsize] at hhere
    cases hhere
  refine ⟨fun _ ↦ .inr, fun hregion hhere enclosing houter ↦ ?_,
    fun {frame here} hregion hhere binding hbinding ↦ ?_⟩
  · exact .inl (.outer (hreached hregion hhere) hhere houter)
  · have hframe := hreached hregion hhere
    refine Value.all_of_occurs _ fun part hpart ↦ ?_
    have hsound := (h frame here hframe hhere binding hbinding).occurs hpart
    cases part with
    | function closure => exact ⟨.inl (.function hframe hhere hbinding hpart), hsound.2⟩
    | _ => exact hsound

theorem Sealed.reaches (h : scopes.Sealed (Value.IsSound errors node region) region)
    (hroots : ∀ frame, roots frame → region frame) {frame : FrameId}
    (hframe : scopes.Reaches roots frame) : region frame := by
  induction hframe with
  | root hroot => exact hroots _ hroot
  | outer _ hhere houter ih => exact h.outer ih hhere _ houter
  | function _ hhere hbinding hclosure ih =>
    exact ((h.bindings ih hhere _ hbinding).occurs hclosure).1

/-- What can be reached from inside a region has stayed inside. -/
theorem Sealed.reachable (h : scopes.Sealed (Value.IsSound errors node region) region)
    (hroots : ∀ frame, roots frame → region frame) :
    scopes.AllReachable (Value.IsSound errors node region) roots :=
  fun _ _ hframe hhere ↦ h.bindings (h.reaches hroots hframe) hhere

end Scopes

/-- Every run inside a region keeps the scopes sealed. -/
theorem lockstep_sealed (errors : Prop) (node : Node → Prop) (region : FrameId → Prop)
    (settings : Settings) :
    Lockstep (Domain.inside errors node region) (· = ·) settings settings fun property run _ ↦
      run.Ensures (Scopes.Sealed (Value.IsSound errors node region) region) property where
  builtins _ := rfl
  pure := Run.ensures_pure
  bind := Run.Ensures.bind
  print _ _ := Run.ensures_print _ _
  openFrame houter := Run.ensures_openFrame fun _ hscopes ↦ hscopes.newFrame houter
  setVariable _ hfound := Run.ensures_setVariable fun _ hscopes ↦ hscopes.set _ _ hfound
  getVariable hframe _ := Run.ensures_getVariable fun _ hscopes _ hget ↦ hscopes.get? hframe hget
  makeFunction hframe hbody := Run.ensures_makeFunction fun _ ↦
    .inl (Value.all_function_iff.mpr ⟨hframe, hbody⟩)
  noteBinding _ _ _ := Run.ensures_note _ _ _ _
  noteCondition _ _ := Run.ensures_note _ _ _ _
  noteBuiltin _ _ _ := Run.ensures_note _ _ _ _
  noteCall _ _ _ := Run.ensures_note _ _ _ _
  noteStatement _ _ _ := Run.ensures_note _ _ _ _

theorem programResult_sealed (settings : Settings) {frame : FrameId} (hframe : region frame)
    {statements : List Stmt} (hnodes : ∀ statement ∈ statements, statement.Every node) :
    (programResult settings frame none statements).Ensures
      (Scopes.Sealed (Value.IsSound errors node region) region)
      (Domain.inside errors node region).GivesAny := by
  have hlockstep := lockstep_sealed errors node region settings
  have hat := LockstepAt.same hlockstep (fun _ ↦ rfl) (Run.ensures_halt .depth) settings.depthLimit
  exact hat.programResult hlockstep rfl hframe hnodes Domain.givesAny_none

end MonkeyLang
