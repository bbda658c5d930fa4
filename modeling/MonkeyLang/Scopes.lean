import MonkeyLang.Value

/-!
Variables. A frame binds names to values and may have an outer frame; frames are numbered in the
order in which they were opened. A look-up walks outward from a frame to the first one that binds
the name. A write stays in its frame, so it hides an outer binding of the same name and never
changes it.
-/

set_option autoImplicit false

namespace MonkeyLang

/-- The bindings of a frame stand in the order in which their names were first bound. -/
structure Frame where
  bindings : List (String × Value) := []
  outer : Option FrameId := none

namespace Frame

def get? (frame : Frame) (name : String) : Option Value :=
  Entries.get? frame.bindings name

def set (frame : Frame) (name : String) (value : Value) : Frame :=
  { frame with bindings := Entries.put name value frame.bindings }

theorem get?_set (frame : Frame) (name other : String) (value : Value) :
    (frame.set name value).get? other = if name = other then some value else frame.get? other :=
  Entries.get?_put frame.bindings name other value

end Frame

structure Scopes where
  frames : Array Frame := #[]

namespace Scopes

/-- Adds a frame without bindings and gives its number. -/
def newFrame (scopes : Scopes) (outer : Option FrameId) : FrameId × Scopes :=
  (scopes.frames.size, ⟨scopes.frames.push { outer }⟩)

/-- Adds a frame that has bindings from the start, put in one after the other, and gives its
number. -/
def newFrameWith (scopes : Scopes) (store : List (String × Value)) (outer : Option FrameId) :
    FrameId × Scopes :=
  let frame : Frame := store.foldl (fun frame binding => frame.set binding.1 binding.2) { outer }
  (scopes.frames.size, ⟨scopes.frames.push frame⟩)

theorem newFrameWith_nil (scopes : Scopes) (outer : Option FrameId) :
    scopes.newFrameWith [] outer = scopes.newFrame outer :=
  rfl

def set (scopes : Scopes) (frame : FrameId) (name : String) (value : Value) : Scopes :=
  ⟨scopes.frames.modify frame (·.set name value)⟩

/-- Looks the name up in at most `bound` frames. -/
def getWithin (scopes : Scopes) (name : String) : Nat → FrameId → Option Value
  | 0, _ => none
  | bound + 1, frame =>
    match scopes.frames[frame]? with
    | none => none
    | some here =>
      match here.get? name with
      | some value => some value
      | none =>
        match here.outer with
        | none => none
        | some outer => scopes.getWithin name bound outer

/-- The value of a name as seen from a frame. An outer frame is older than the frame it encloses,
so a walk outward visits no more frames than there are. -/
def get? (scopes : Scopes) (frame : FrameId) (name : String) : Option Value :=
  scopes.getWithin name scopes.frames.size frame

/-- Whether a name has a value as seen from a frame. -/
def contains (scopes : Scopes) (frame : FrameId) (name : String) : Bool :=
  (scopes.get? frame name).isSome

def depthWithin (scopes : Scopes) : Nat → FrameId → Nat
  | 0, _ => 0
  | bound + 1, frame =>
    match (scopes.frames[frame]?).bind (·.outer) with
    | none => 0
    | some outer => scopes.depthWithin bound outer + 1

/-- How many frames enclose a frame. -/
def depth (scopes : Scopes) (frame : FrameId) : Nat :=
  scopes.depthWithin scopes.frames.size frame

def bindings (scopes : Scopes) (frame : FrameId) : List (String × Value) :=
  ((scopes.frames[frame]?).map (·.bindings)).getD []

/-- The names of a frame in alphabetical order, and its depth. -/
def describe (scopes : Scopes) (frame : FrameId) : String :=
  let names := ((scopes.bindings frame).map (·.1)).mergeSort fun a b => decide (a ≤ b)
  "<Environment names=[" ++ ", ".intercalate (names.map Text.quoted) ++ "] depth=" ++
    toString (scopes.depth frame) ++ ">"

end Scopes

end MonkeyLang
