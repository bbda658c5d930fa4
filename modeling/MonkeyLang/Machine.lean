import MonkeyLang.Scopes
import MonkeyLang.Value.Text

/-!
What a running program changes: its variables, what it has printed, its trace, and the serial
number for the next function. A computation ends with a value or is halted for good; the effects
up to that moment stay either way.
-/

set_option autoImplicit false

namespace MonkeyLang

/-- A line of the trace, with the least verbosity that shows it. -/
structure Event where
  level : Nat
  text : String
  deriving DecidableEq, Repr

structure Machine where
  scopes : Scopes := {}
  output : Array String := #[]
  trace : Array Event := #[]
  functions : Nat := 0

structure Settings where
  verbosity : Int := 0
  builtins : List (String × Builtin) := Builtin.table
  depthLimit : Nat := 50000

inductive Outcome (α : Type) where
  | done (value : α) (machine : Machine)
  | halted (halt : Halt) (machine : Machine)

def Run (α : Type) := Machine → Outcome α

namespace Run

@[always_inline, inline] protected def pure {α : Type} (value : α) : Run α :=
  fun machine => .done value machine

@[always_inline, inline] protected def bind {α β : Type} (first : Run α) (next : α → Run β) :
    Run β :=
  fun machine =>
    match first machine with
    | .done value machine => next value machine
    | .halted halt machine => .halted halt machine

instance : Monad Run where
  pure := Run.pure
  bind := Run.bind

def halt {α : Type} (reason : Halt) : Run α :=
  fun machine => .halted reason machine

/-- Goes on with a value, and passes an error on as the result. -/
@[always_inline, inline] def andThen (first : Run Value) (next : Value → Run Value) : Run Value :=
  fun machine =>
    match first machine with
    | .done (.error failure) machine => .done (.error failure) machine
    | .done value machine => next value machine
    | .halted halt machine => .halted halt machine

/-- Prints a value, with this room for the nested steps of its text. -/
def print (room : Room) (value : Value) : Run Unit :=
  fun machine =>
    match Halt.within Steps.alone value.obstacle? room with
    | some reason => .halted reason machine
    | none => .done () { machine with output := machine.output.push value.text }

/-- Adds a line to the trace if the verbosity reaches its level. Only then is its text written, and
only then does an obstacle to the text halt the run. -/
@[inline] def note (settings : Settings) (level : Nat) (obstacle : Unit → Option Halt)
    (text : Unit → String) : Run Unit :=
  fun machine =>
    if level ≤ settings.verbosity then
      match obstacle () with
      | some reason => .halted reason machine
      | none => .done () { machine with trace := machine.trace.push ⟨level, text ()⟩ }
    else .done () machine

def openFrame (outer : FrameId) : Run FrameId :=
  fun machine =>
    let (frame, scopes) := machine.scopes.newFrame (some outer)
    .done frame { machine with scopes }

def setVariable (frame : FrameId) (name : String) (value : Value) : Run Unit :=
  fun machine => .done () { machine with scopes := machine.scopes.set frame name value }

def getVariable (frame : FrameId) (name : String) : Run (Option Value) :=
  fun machine => .done (machine.scopes.get? frame name) machine

def makeFunction (parameters : List Identifier) (body : Block) (frame : FrameId) : Run Value :=
  fun machine =>
    .done (.function ⟨machine.functions, parameters, body, frame⟩)
      { machine with functions := machine.functions + 1 }

end Run

end MonkeyLang
