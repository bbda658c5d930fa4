import Mathlib.Tactic
import MonkeyLang.Proofs.Entries
import MonkeyLang.Proofs.Evaluation.Invariant

/-!
# Looking names up in nested frames

From a frame a chain leads outward, to the frame that encloses it and on to one without an outer
frame. If every outer frame is older than the frame that it encloses, each frame has a chain, which
is no longer than its number allows (`OuterOlder.exists_chain`), and a look-up from the frame gives
what the first frame on the chain has for the name (`Chain.get?_eq_findSome?`).

A history tells what has been done to frames, starting with none of them: frames were opened, on
their own or inside another one, empty or with bindings from the start, and names were written in
frames that were there. What a frame binds is the last of the writes to it (`History.own?_scopes`),
so a look-up gives the last write to the nearest frame that was ever written at the name.
-/

set_option autoImplicit false

namespace MonkeyLang

/-- Bindings that are put into a frame one after the other. -/
theorem Frame.foldl_set (store : List (String × Value)) (frame : Frame) :
    store.foldl (fun frame binding ↦ frame.set binding.1 binding.2) frame =
      { frame with bindings := Entries.putAll store frame.bindings } := by
  induction store generalizing frame with
  | nil => rfl
  | cons binding rest ih =>
    rw [List.foldl_cons, ih]
    rfl

namespace Scopes

variable {scopes : Scopes}

/-! ### What single frames bind -/

/-- The value that a frame itself has for a name. -/
def own? (scopes : Scopes) (frame : FrameId) (name : String) : Option Value :=
  (scopes.frames[frame]?).bind (·.get? name)

theorem own?_of_size_le {frame : FrameId} (hframe : scopes.frames.size ≤ frame) (name : String) :
    scopes.own? frame name = none := by
  rw [own?, Array.getElem?_eq_none hframe, Option.bind_none]

theorem own?_set {target : FrameId} (htarget : target < scopes.frames.size) (written : String)
    (value : Value) (frame : FrameId) (name : String) :
    (scopes.set target written value).own? frame name =
      if target = frame ∧ written = name then some value else scopes.own? frame name := by
  rw [own?, getElem?_set]
  by_cases hframe : target = frame
  · subst hframe
    rw [if_pos rfl, own?, Array.getElem?_eq_getElem htarget, Option.map_some, Option.bind_some,
      Option.bind_some, Frame.get?_set]
    exact if_congr (and_iff_right rfl).symm rfl rfl
  · rw [if_neg hframe, if_neg fun h ↦ hframe h.1, own?]

theorem own?_newFrameWith (scopes : Scopes) (store : List (String × Value))
    (outer : Option FrameId) (frame : FrameId) (name : String) :
    (scopes.newFrameWith store outer).2.own? frame name =
      if frame = scopes.frames.size then Entries.get? store.reverse name
      else scopes.own? frame name := by
  rw [own?, newFrameWith, Array.getElem?_push]
  split_ifs
  · rw [Option.bind_some, Frame.foldl_set, Frame.get?]
    exact Entries.get?_putAll_nil store name
  · rfl

/-! ### Outer frames -/

/-- Every outer frame is older than the frame that it encloses. -/
def OuterOlder (scopes : Scopes) : Prop :=
  ∀ ⦃frame : FrameId⦄ ⦃here : Frame⦄, scopes.frames[frame]? = some here →
    ∀ enclosing ∈ here.outer, enclosing < frame

/-- A write leaves the outer frames as they are. -/
theorem exists_outer_eq_of_set {target frame : FrameId} {written : String} {value : Value}
    {here : Frame} (hhere : (scopes.set target written value).frames[frame]? = some here) :
    ∃ old, scopes.frames[frame]? = some old ∧ old.outer = here.outer := by
  rw [getElem?_set] at hhere
  split_ifs at hhere
  · obtain ⟨old, hold, rfl⟩ := Option.map_eq_some_iff.mp hhere
    exact ⟨old, hold, rfl⟩
  · exact ⟨here, hhere, rfl⟩

theorem OuterOlder.set (h : scopes.OuterOlder) (target : FrameId) (written : String)
    (value : Value) : (scopes.set target written value).OuterOlder := by
  intro frame here hhere
  obtain ⟨old, hold, houter⟩ := exists_outer_eq_of_set hhere
  rw [← houter]
  exact h hold

theorem OuterOlder.push (h : scopes.OuterOlder) {last : Frame}
    (hlast : ∀ enclosing ∈ last.outer, enclosing < scopes.frames.size) :
    OuterOlder ⟨scopes.frames.push last⟩ := by
  intro frame here hhere
  rw [Array.getElem?_push] at hhere
  split_ifs at hhere with hframe
  · obtain rfl := Option.some.inj hhere
    rw [hframe]
    exact hlast
  · exact h hhere

theorem OuterOlder.newFrameWith (h : scopes.OuterOlder) (store : List (String × Value))
    {outer : Option FrameId} (houter : ∀ enclosing ∈ outer, enclosing < scopes.frames.size) :
    (scopes.newFrameWith store outer).2.OuterOlder := by
  refine h.push ?_
  rw [Frame.foldl_set]
  exact houter

/-! ### Chains -/

/-- The frames from a frame on outward, to one that has no outer frame. -/
inductive Chain (scopes : Scopes) : FrameId → List FrameId → Prop
  | outermost {frame : FrameId} {here : Frame} (hhere : scopes.frames[frame]? = some here)
    (houter : here.outer = none) : Chain scopes frame [frame]
  | enclosed {frame enclosing : FrameId} {here : Frame} {rest : List FrameId}
    (hhere : scopes.frames[frame]? = some here) (houter : here.outer = some enclosing)
    (hrest : Chain scopes enclosing rest) : Chain scopes frame (frame :: rest)

theorem Chain.set {frame : FrameId} {chain : List FrameId} (h : scopes.Chain frame chain)
    (target : FrameId) (written : String) (value : Value) :
    (scopes.set target written value).Chain frame chain := by
  have hkept {frame : FrameId} {here : Frame} (hhere : scopes.frames[frame]? = some here) :
      ∃ new, (scopes.set target written value).frames[frame]? = some new ∧
        new.outer = here.outer := by
    rw [getElem?_set, hhere]
    split_ifs
    · exact ⟨here.set written value, rfl, rfl⟩
    · exact ⟨here, rfl, rfl⟩
  induction h with
  | outermost hhere houter =>
    obtain ⟨new, hnew, heq⟩ := hkept hhere
    exact .outermost hnew (heq.trans houter)
  | enclosed hhere houter _ ih =>
    obtain ⟨new, hnew, heq⟩ := hkept hhere
    exact .enclosed hnew (heq.trans houter) ih

/-- Along a chain the numbers fall, so it is no longer than the number of its first frame allows. -/
theorem OuterOlder.exists_chain (h : scopes.OuterOlder) {frame : FrameId}
    (hframe : frame < scopes.frames.size) :
    ∃ chain, scopes.Chain frame chain ∧ chain.length ≤ frame + 1 := by
  induction frame using Nat.strong_induction_on with
  | _ frame ih =>
    have hhere := Array.getElem?_eq_getElem hframe
    cases houter : scopes.frames[frame].outer with
    | none => exact ⟨[frame], .outermost hhere houter, by simp⟩
    | some enclosing =>
      have holder : enclosing < frame := h hhere enclosing houter
      obtain ⟨rest, hrest, hlength⟩ := ih enclosing holder (holder.trans hframe)
      exact ⟨frame :: rest, .enclosed hhere houter hrest, Nat.succ_le_succ (hlength.trans holder)⟩

/-- One step of a look-up. -/
theorem getWithin_succ {frame : FrameId} {here : Frame}
    (hhere : scopes.frames[frame]? = some here) (name : String) (bound : Nat) :
    scopes.getWithin name (bound + 1) frame =
      (scopes.own? frame name).or (here.outer.bind (scopes.getWithin name bound)) := by
  rw [getWithin, own?, hhere, Option.bind_some]
  dsimp only
  cases here.get? name with
  | some value => rfl
  | none => cases here.outer <;> rfl

theorem Chain.getWithin_eq_findSome? {frame : FrameId} {chain : List FrameId}
    (h : scopes.Chain frame chain) (name : String) {bound : Nat} (hbound : chain.length ≤ bound) :
    scopes.getWithin name bound frame = chain.findSome? (scopes.own? · name) := by
  induction h generalizing bound with
  | outermost hhere houter =>
    obtain ⟨bound, rfl⟩ := Nat.exists_eq_succ_of_ne_zero (Nat.ne_of_gt hbound)
    rw [getWithin_succ hhere, houter, Option.bind_none, Option.or_none, List.findSome?_singleton]
  | enclosed hhere houter _ ih =>
    obtain ⟨bound, rfl⟩ := Nat.exists_eq_succ_of_ne_zero (Nat.ne_zero_of_lt hbound)
    rw [getWithin_succ hhere, houter, Option.bind_some, ih (Nat.le_of_succ_le_succ hbound),
      List.findSome?_cons]
    cases scopes.own? _ name <;> rfl

/-- A look-up gives what the first frame on the chain has for the name. -/
theorem Chain.get?_eq_findSome? {frame : FrameId} {chain : List FrameId}
    (h : scopes.Chain frame chain) (hlength : chain.length ≤ scopes.frames.size) (name : String) :
    scopes.get? frame name = chain.findSome? (scopes.own? · name) :=
  h.getWithin_eq_findSome? name hlength

theorem OuterOlder.exists_chain_get? (h : scopes.OuterOlder) {frame : FrameId}
    (hframe : frame < scopes.frames.size) :
    ∃ chain, scopes.Chain frame chain ∧ chain.length ≤ scopes.frames.size ∧
      ∀ name, scopes.get? frame name = chain.findSome? (scopes.own? · name) := by
  obtain ⟨chain, hchain, hlength⟩ := h.exists_chain hframe
  have hle : chain.length ≤ scopes.frames.size := hlength.trans hframe
  exact ⟨chain, hchain, hle, hchain.get?_eq_findSome? hle⟩

end Scopes

/-! ### Histories -/

/-- What has been done to frames, one after the other, when there are `count` of them. -/
inductive Scopes.History : Nat → Type
  | start : History 0
  | opened {count : Nat} (before : History count) (store : List (String × Value))
    (outer : Option (Fin count)) : History (count + 1)
  | written {count : Nat} (before : History count) (frame : Fin count) (name : String)
    (value : Value) : History count

namespace Scopes.History

variable {count : Nat}

/-- The frames after all that has been done. -/
def scopes : {count : Nat} → History count → Scopes
  | _, .start => {}
  | _, .opened before store outer => (before.scopes.newFrameWith store (outer.map Fin.val)).2
  | _, .written before frame name value => before.scopes.set frame name value

/-- The writes, the latest one last. Bindings that a frame has from the start count as writes. -/
def writes : {count : Nat} → History count → List ((FrameId × String) × Value)
  | _, .start => []
  | count + 1, .opened before store _ => before.writes ++
      store.map fun binding ↦ ((count, binding.1), binding.2)
  | _, .written before frame name value => before.writes ++ [((frame.val, name), value)]

/-- The frame was ever written at the name. -/
def WrittenAt (history : History count) (frame : FrameId) (name : String) : Prop :=
  (frame, name) ∈ Entries.keys history.writes

/-- The value is that of the most recent write of the name to the frame. -/
def LastWrite (history : History count) (frame : FrameId) (name : String) (value : Value) : Prop :=
  ∃ before after, history.writes = before ++ ((frame, name), value) :: after ∧
    (frame, name) ∉ Entries.keys after

/-- The frame stands on the chain, and none before it was ever written at the name. -/
def Uncovered (history : History count) (chain : List FrameId) (frame : FrameId) (name : String) :
    Prop :=
  ∃ inner outer, chain = inner ++ frame :: outer ∧ ∀ other ∈ inner, ¬history.WrittenAt other name

theorem size_scopes (history : History count) : history.scopes.frames.size = count := by
  induction history with
  | start => rfl
  | opened before store outer ih => rw [scopes, newFrameWith, Array.size_push, ih]
  | written before frame name value ih => rw [scopes, Scopes.set, Array.size_modify, ih]

theorem outerOlder_scopes (history : History count) : history.scopes.OuterOlder := by
  induction history with
  | start =>
    intro frame here hhere
    cases hhere
  | opened before store outer ih =>
    refine ih.newFrameWith store fun enclosing henclosing ↦ ?_
    obtain ⟨frame, -, rfl⟩ := Option.map_eq_some_iff.mp henclosing
    rw [before.size_scopes]
    exact frame.isLt
  | written before frame name value ih => exact ih.set frame name value

/-- What is written at a new frame from the start. -/
theorem get?_reverse_map (frame target : FrameId) (name : String)
    (store : List (String × Value)) :
    Entries.get? (store.map fun binding ↦ ((target, binding.1), binding.2)).reverse (frame, name) =
      if frame = target then Entries.get? store.reverse name else none := by
  rw [← List.map_reverse]
  induction store.reverse with
  | nil => simp [Entries.get?]
  | cons binding rest ih =>
    obtain ⟨key, value⟩ := binding
    rw [List.map_cons, Entries.get?, Entries.get?, ih]
    by_cases hframe : frame = target
    · subst hframe
      simp
    · simp [hframe, Ne.symm hframe]

theorem own?_scopes_written (history : History count) (target : Fin count) (written : String)
    (value : Value) (frame : FrameId) (name : String) :
    (history.written target written value).scopes.own? frame name =
      if target.val = frame ∧ written = name then some value
      else history.scopes.own? frame name := by
  have htarget : target.val < history.scopes.frames.size := by
    rw [history.size_scopes]
    exact target.isLt
  rw [scopes, own?_set htarget]

/-- What a frame binds is what was written to it last. -/
theorem own?_scopes (history : History count) (frame : FrameId) (name : String) :
    history.scopes.own? frame name = Entries.get? history.writes.reverse (frame, name) := by
  induction history with
  | start => rfl
  | @opened count before store outer ih =>
    rw [scopes, own?_newFrameWith, before.size_scopes, writes, List.reverse_append,
      Entries.get?_append, get?_reverse_map, ← ih]
    by_cases hframe : frame = count
    · -- Nothing was written to the new frame before it was opened.
      have hnew : before.scopes.own? frame name = none :=
        own?_of_size_le (by rw [before.size_scopes, hframe]) name
      rw [if_pos hframe, if_pos hframe, hnew, Option.or_none]
    · rw [if_neg hframe, if_neg hframe, Option.none_or]
  | written before target written value ih =>
    rw [own?_scopes_written, writes, List.reverse_append, List.reverse_singleton,
      List.singleton_append, Entries.get?, ih]
    exact if_congr Prod.mk_inj.symm rfl rfl

theorem own?_scopes_eq_some_iff {history : History count} {frame : FrameId} {name : String}
    {value : Value} :
    history.scopes.own? frame name = some value ↔ history.LastWrite frame name value := by
  rw [own?_scopes]
  exact Entries.get?_reverse_eq_some_iff

theorem own?_scopes_eq_none_iff {history : History count} {frame : FrameId} {name : String} :
    history.scopes.own? frame name = none ↔ ¬history.WrittenAt frame name := by
  rw [own?_scopes]
  exact Entries.get?_reverse_eq_none_iff

/-! ### Writes that are seen -/

variable {history : History count} {chain : List FrameId} {target : Fin count}
  {written name : String}

theorem uncovered_iff {nearest : FrameId} :
    history.Uncovered chain nearest name ↔ ∃ inner outer, chain = inner ++ nearest :: outer ∧
      ∀ other ∈ inner, history.scopes.own? other name = none := by
  simp only [own?_scopes_eq_none_iff]
  rfl

theorem Uncovered.cons {frame : FrameId} (h : history.Uncovered chain target name)
    (hframe : history.scopes.own? frame name = none) :
    history.Uncovered (frame :: chain) target name := by
  obtain ⟨inner, outer, rfl, hinner⟩ := h
  exact ⟨frame :: inner, outer, rfl,
    List.forall_mem_cons.mpr ⟨own?_scopes_eq_none_iff.mp hframe, hinner⟩⟩

/-- What is written to an uncovered frame is found from then on. -/
theorem Uncovered.findSome?_written (h : history.Uncovered chain target name) (value : Value) :
    chain.findSome? ((history.written target name value).scopes.own? · name) = some value := by
  obtain ⟨inner, outer, rfl, hinner⟩ := uncovered_iff.mp h
  clear h
  induction inner with
  | nil => rw [List.nil_append, List.findSome?_cons, own?_scopes_written, if_pos ⟨rfl, rfl⟩]
  | cons frame inner ih =>
    obtain ⟨hframe, hinner⟩ := List.forall_mem_cons.mp hinner
    rw [List.cons_append, List.findSome?_cons, own?_scopes_written, hframe]
    by_cases heq : target.val = frame
    · rw [if_pos ⟨heq, rfl⟩]
    · rw [if_neg fun h ↦ heq h.1]
      exact ih hinner

/-- What is written under another name or to another frame is not seen. -/
theorem findSome?_written_of_not_seen
    (h : ¬(written = name ∧ history.Uncovered chain target name)) (value : Value) :
    chain.findSome? ((history.written target written value).scopes.own? · name) =
      chain.findSome? (history.scopes.own? · name) := by
  induction chain with
  | nil => rfl
  | cons frame chain ih =>
    have hother : ¬(target.val = frame ∧ written = name) := by
      rintro ⟨rfl, rfl⟩
      exact h ⟨rfl, [], chain, rfl, List.forall_mem_nil _⟩
    rw [List.findSome?_cons, List.findSome?_cons, own?_scopes_written, if_neg hother]
    cases hframe : history.scopes.own? frame name with
    | some found => rfl
    | none => exact ih fun hrest ↦ h ⟨hrest.1, hrest.2.cons hframe⟩

end Scopes.History

open Scopes

/-- After anything that has been done to frames, a look-up from a frame gives the last write of the
name to the first frame on the chain outward that was ever written at it, and nothing exactly if
none was. A further write is seen exactly if it is of the same name, to a frame on the chain, and no
frame before that one was written at the name; otherwise it changes nothing. -/
theorem lookup_gives_last_write_to_nearest_frame {count : Nat} (history : History count)
    (frame : Fin count) (name : String) :
    ∃ chain, history.scopes.Chain frame chain ∧
      (∀ value, history.scopes.get? frame name = some value ↔
        ∃ nearest, history.Uncovered chain nearest name ∧
          history.LastWrite nearest name value) ∧
      (history.scopes.get? frame name = none ↔ ∀ other ∈ chain, ¬history.WrittenAt other name) ∧
      (history.scopes.contains frame name ↔ history.scopes.get? frame name ≠ none) ∧
      ∀ (target : Fin count) (written : String) (value : Value),
        let seen := written = name ∧ history.Uncovered chain target name
        let later := (history.written target written value).scopes
        (seen → later.get? frame name = some value) ∧
          (¬seen → later.get? frame name = history.scopes.get? frame name) := by
  have hframe : frame.val < history.scopes.frames.size := by
    rw [history.size_scopes]
    exact frame.isLt
  obtain ⟨chain, hchain, hlength, hget⟩ := history.outerOlder_scopes.exists_chain_get? hframe
  refine ⟨chain, hchain, fun value ↦ ?_, ?_, ?_, fun target written value ↦ ?_⟩
  · rw [hget, List.findSome?_eq_some_iff]
    simp only [History.uncovered_iff, ← History.own?_scopes_eq_some_iff]
    constructor
    · rintro ⟨inner, nearest, outer, hsplit, hvalue, hinner⟩
      exact ⟨nearest, ⟨inner, outer, hsplit, hinner⟩, hvalue⟩
    · rintro ⟨nearest, ⟨inner, outer, hsplit, hinner⟩, hvalue⟩
      exact ⟨inner, nearest, outer, hsplit, hvalue, hinner⟩
  · rw [hget, List.findSome?_eq_none_iff]
    exact forall₂_congr fun other _ ↦ History.own?_scopes_eq_none_iff
  · rw [contains, Option.isSome_iff_ne_none]
  · have hlater : (history.written target written value).scopes.get? frame name =
        chain.findSome? ((history.written target written value).scopes.own? · name) := by
      refine (hchain.set target written value).get?_eq_findSome? ?_ name
      rwa [Scopes.set, Array.size_modify]
    constructor
    · rintro ⟨rfl, huncovered⟩
      rw [hlater]
      exact huncovered.findSome?_written value
    · intro hseen
      rw [hlater, hget]
      exact History.findSome?_written_of_not_seen hseen value

end MonkeyLang
