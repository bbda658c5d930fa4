import Mathlib.Tactic
import MonkeyLang.Proofs.Evaluation.ErrorFree

/-!
# Names that are not mentioned

A program that never reads a name, neither itself nor in a function that it can reach, does not
depend on it. What the name is bound to in any frame, and whether a builtin function goes by it, may
change: the program gives the same value, prints and traces the same lines, is halted at the same
moment, and leaves the same bindings of every other name.

Two machines are compared with the bindings of the name taken away (`Machine.without`). No primitive
step of a run that does not look the name up tells them apart (`Run.Overlooks`), so two runs from
such machines stay in lockstep. For this the functions that are called on the way must not read the
name either; they come from the region in which the program is run, and there all of them avoid it.
-/

set_option autoImplicit false

namespace MonkeyLang

/-! ### Bindings without a name -/

namespace Entries

variable {α β : Type} [DecidableEq α]

/-- The entries with other keys. -/
def without (key : α) (entries : List (α × β)) : List (α × β) :=
  entries.filter (·.1 ≠ key)

variable {key other : α} {entries : List (α × β)}

theorem without_cons (key k : α) (v : β) (rest : List (α × β)) :
    without key ((k, v) :: rest) =
      if k = key then without key rest else (k, v) :: without key rest := by
  by_cases hk : k = key <;> simp [without, hk]

theorem get?_without (hne : other ≠ key) :
    get? (without key entries) other = get? entries other := by
  induction entries with
  | nil => rfl
  | cons head rest ih =>
    obtain ⟨k, v⟩ := head
    rw [without_cons, get?]
    by_cases hk : k = key
    · rw [if_pos hk, ih, if_neg fun ho ↦ hne (ho.symm.trans hk)]
    · rw [if_neg hk, get?, ih]

theorem without_put_self (value : β) :
    without key (put key value entries) = without key entries := by
  induction entries with
  | nil => simp [put, without]
  | cons head rest ih =>
    obtain ⟨k, v⟩ := head
    rw [put, without_cons]
    by_cases hk : k = key
    · rw [if_pos hk, if_pos hk, without_cons, if_pos hk]
    · rw [if_neg hk, if_neg hk, without_cons, if_neg hk, ih]

theorem without_put_of_ne (hne : other ≠ key) (value : β) :
    without key (put other value entries) = put other value (without key entries) := by
  induction entries with
  | nil => simp [put, without, hne]
  | cons head rest ih =>
    obtain ⟨k, v⟩ := head
    rw [put, without_cons]
    by_cases hk : k = key
    · have ho : k ≠ other := fun ho ↦ hne (ho.symm.trans hk)
      rw [if_neg ho, if_pos hk, without_cons, if_pos hk, ih]
    · rw [if_neg hk, put]
      split_ifs
      · rw [without_cons, if_neg hk]
      · rw [without_cons, if_neg hk, ih]

end Entries

namespace Frame

/-- The bindings of other names. -/
def without (name : String) (frame : Frame) : Frame :=
  { frame with bindings := Entries.without name frame.bindings }

variable {name other : String} (frame : Frame) (value : Value)

theorem outer_without : (frame.without name).outer = frame.outer :=
  rfl

theorem get?_without (hne : other ≠ name) : (frame.without name).get? other = frame.get? other :=
  Entries.get?_without hne

theorem without_set_self : (frame.set name value).without name = frame.without name := by
  rw [without, without, set, Entries.without_put_self]

theorem without_set_of_ne (hne : other ≠ name) :
    (frame.set other value).without name = (frame.without name).set other value := by
  rw [without, set, set, without, Entries.without_put_of_ne hne]

end Frame

namespace Scopes

/-- The same frames without their bindings of the name. -/
def without (name : String) (scopes : Scopes) : Scopes :=
  ⟨scopes.frames.map (·.without name)⟩

variable {name other : String} (scopes : Scopes)

theorem getElem?_without (name : String) (frame : FrameId) :
    (scopes.without name).frames[frame]? = (scopes.frames[frame]?).map (·.without name) :=
  Array.getElem?_map

theorem getWithin_without (hne : other ≠ name) (bound : Nat) (frame : FrameId) :
    (scopes.without name).getWithin other bound frame = scopes.getWithin other bound frame := by
  induction bound generalizing frame with
  | zero => rfl
  | succ bound ih =>
    rw [getWithin, getWithin, getElem?_without]
    cases scopes.frames[frame]? with
    | none => rfl
    | some here => simp only [Option.map_some, Frame.get?_without here hne, Frame.outer_without, ih]

theorem get?_without (hne : other ≠ name) (frame : FrameId) :
    (scopes.without name).get? frame other = scopes.get? frame other := by
  rw [get?, getWithin_without scopes hne, without, Array.size_map, get?]

theorem without_set_self (frame : FrameId) (value : Value) :
    (scopes.set frame name value).without name = scopes.without name := by
  rw [without, without]
  congr 1
  refine Array.ext_getElem? fun i ↦ ?_
  rw [Array.getElem?_map, getElem?_set, Array.getElem?_map]
  split_ifs
  · rw [Option.map_map]
    exact congrArg (Option.map · _) (funext fun here ↦ here.without_set_self value)
  · rfl

theorem without_set_of_ne (hne : other ≠ name) (frame : FrameId) (value : Value) :
    (scopes.set frame other value).without name =
      (scopes.without name).set frame other value := by
  rw [without, set, set, without]
  congr 1
  refine Array.ext_getElem? fun i ↦ ?_
  rw [Array.getElem?_map, Array.getElem?_modify, Array.getElem?_modify, Array.getElem?_map]
  split_ifs
  · rw [Option.map_map, Option.map_map]
    exact congrArg (Option.map · _) (funext fun here ↦ here.without_set_of_ne value hne)
  · rfl

theorem without_newFrame (enclosing : Option FrameId) :
    (scopes.newFrame enclosing).2.without name = ((scopes.without name).newFrame enclosing).2 := by
  rw [newFrame, newFrame, without, without, Array.map_push]
  rfl

end Scopes

/-- The machine without the bindings of the name. -/
def Machine.without (name : String) (machine : Machine) : Machine :=
  { machine with scopes := machine.scopes.without name }

/-- The outcome without the bindings of the name in the variables that are left. -/
def Outcome.without {α : Type} (name : String) : Outcome α → Outcome α
  | .done value machine => .done value (machine.without name)
  | .halted halt machine => .halted halt (machine.without name)

theorem Machine.without_eq_without_iff {name : String} {machine machine' : Machine} :
    machine'.without name = machine.without name ↔
      machine'.scopes.without name = machine.scopes.without name ∧
        machine'.output = machine.output ∧ machine'.trace = machine.trace ∧
          machine'.functions = machine.functions := by
  rw [without, without, Machine.mk.injEq]

/-! ### Steps that overlook a name -/

namespace Run

variable {α β : Type} {name : String}

/-- Machines that differ in the bindings of the name only are not told apart. -/
def Overlooks (name : String) (run : Run α) : Prop :=
  ∀ machine machine' : Machine, machine'.without name = machine.without name →
    (run machine').without name = (run machine).without name

theorem overlooks_pure (found : α) : (pure found : Run α).Overlooks name :=
  fun _ _ heq ↦ congrArg (Outcome.done found) heq

theorem overlooks_halt (reason : Halt) : (halt reason : Run α).Overlooks name :=
  fun _ _ heq ↦ congrArg (Outcome.halted reason) heq

/-- A step that gives a value which the two machines have in common, and changes them alike. -/
theorem overlooks_step {value : Machine → α} {next : Machine → Machine}
    (hstep : ∀ machine machine' : Machine, machine'.without name = machine.without name →
      value machine' = value machine ∧ (next machine').without name = (next machine).without name) :
    Run.Overlooks name fun machine ↦ .done (value machine) (next machine) := by
  intro machine machine' heq
  obtain ⟨hvalue, hnext⟩ := hstep machine machine' heq
  show Outcome.done _ _ = Outcome.done _ _
  rw [hvalue, hnext]

theorem overlooks_print (room : Room) (found : Value) : (print room found).Overlooks name := by
  intro machine machine' heq
  rw [print, print]
  split
  · exact congrArg (Outcome.halted _) heq
  · obtain ⟨hscopes, houtput, hothers⟩ := Machine.without_eq_without_iff.mp heq
    exact congrArg (Outcome.done ()) (Machine.without_eq_without_iff.mpr
      ⟨hscopes, congrArg (Array.push · found.text) houtput, hothers⟩)

theorem overlooks_note (settings : Settings) (level : Nat) (obstacle : Unit → Option Halt)
    (text : Unit → String) : (note settings level obstacle text).Overlooks name := by
  intro machine machine' heq
  rw [note, note]
  split_ifs
  · split
    · exact congrArg (Outcome.halted _) heq
    · obtain ⟨hscopes, houtput, htrace, hfunctions⟩ := Machine.without_eq_without_iff.mp heq
      exact congrArg (Outcome.done ()) (Machine.without_eq_without_iff.mpr
        ⟨hscopes, houtput, congrArg (Array.push · ⟨level, text ()⟩) htrace, hfunctions⟩)
  · exact congrArg (Outcome.done ()) heq

theorem overlooks_openFrame (outer : FrameId) : (openFrame outer).Overlooks name := by
  refine overlooks_step fun machine machine' heq ↦ ?_
  obtain ⟨hscopes, hothers⟩ := Machine.without_eq_without_iff.mp heq
  have hsize : machine'.scopes.frames.size = machine.scopes.frames.size := by
    simpa [Scopes.without] using congrArg (·.frames.size) hscopes
  refine ⟨hsize, Machine.without_eq_without_iff.mpr ⟨?_, hothers⟩⟩
  show (machine'.scopes.newFrame _).2.without name = (machine.scopes.newFrame _).2.without name
  rw [Scopes.without_newFrame, Scopes.without_newFrame, hscopes]

theorem overlooks_setVariable (frame : FrameId) (other : String) (found : Value) :
    (setVariable frame other found).Overlooks name := by
  refine overlooks_step fun machine machine' heq ↦ ⟨rfl, ?_⟩
  obtain ⟨hscopes, hothers⟩ := Machine.without_eq_without_iff.mp heq
  refine Machine.without_eq_without_iff.mpr ⟨?_, hothers⟩
  show (machine'.scopes.set frame other found).without name =
    (machine.scopes.set frame other found).without name
  by_cases hname : other = name
  · rw [hname, Scopes.without_set_self, Scopes.without_set_self, hscopes]
  · rw [Scopes.without_set_of_ne _ hname, Scopes.without_set_of_ne _ hname, hscopes]

theorem overlooks_getVariable (frame : FrameId) {other : String} (hne : other ≠ name) :
    (getVariable frame other).Overlooks name := by
  refine overlooks_step fun machine machine' heq ↦ ⟨?_, heq⟩
  rw [← machine'.scopes.get?_without hne, ← machine.scopes.get?_without hne,
    (Machine.without_eq_without_iff.mp heq).1]

theorem overlooks_makeFunction (parameters : List Identifier) (body : Block) (frame : FrameId) :
    (makeFunction parameters body frame).Overlooks name := by
  refine overlooks_step fun machine machine' heq ↦ ?_
  obtain ⟨hscopes, houtput, htrace, hfunctions⟩ := Machine.without_eq_without_iff.mp heq
  refine ⟨by rw [hfunctions], Machine.without_eq_without_iff.mpr
    ⟨hscopes, houtput, htrace, congrArg (· + 1) hfunctions⟩⟩

end Run

/-! ### Code that avoids a name -/

/-- No identifier that would look the name up. -/
def Node.Avoids (name : String) : Node → Prop
  | .expression (.identifier found) => found.value ≠ name
  | _ => True

instance (name : String) : DecidablePred (Node.Avoids name)
  | .expression (.identifier found) => inferInstanceAs (Decidable (found.value ≠ name))
  | .expression (.integer _ _) | .expression (.boolean _ _) | .expression (.string _ _)
  | .expression (.unary _ _ _) | .expression (.binary _ _ _ _)
  | .expression (.conditional _ _ _ _) | .expression (.function _ _ _)
  | .expression (.call _ _ _) | .expression (.array _ _) | .expression (.index _ _ _)
  | .expression (.hash _ _) | .statement _ | .program _ => inferInstanceAs (Decidable True)

/-- No function whose body would look the name up. -/
def Value.Avoids (name : String) : Value → Prop
  | .function closure => closure.body.Every (Node.Avoids name)
  | _ => True

instance (name : String) : DecidablePred (Value.Avoids name)
  | .function closure => inferInstanceAs (Decidable (closure.body.Every (Node.Avoids name)))
  | .integer _ | .string _ | .boolean _ | .null | .returned _ | .array _ | .hash _ | .builtin _
  | .error _ => inferInstanceAs (Decidable True)

theorem Value.Avoids.isSound {name : String} {value : Value} (h : value.Avoids name) :
    value.IsSound True (Node.Avoids name) fun _ ↦ True := by
  cases value with
  | function closure => exact ⟨trivial, h⟩
  | _ => trivial

/-! ### Two runs -/

open Evaluation

variable {name : String} {region : FrameId → Prop}

/-- Scopes in which, inside the region, no function looks the name up. -/
def Scopes.Avoid (name : String) (region : FrameId → Prop) : Scopes → Prop :=
  Scopes.Sealed (Value.IsSound True (Node.Avoids name) region) region

/-- From machines that differ in the bindings of the name only, the two runs do the same; and the
first one stays inside the region. -/
structure Run.Coupled (name : String) (region : FrameId → Prop) {α : Type} (Q : α → Prop)
    (run run' : Run α) : Prop where
  ensures : run.Ensures (Scopes.Avoid name region) Q
  agrees : ∀ machine machine' : Machine, machine.scopes.Avoid name region →
    machine'.without name = machine.without name →
      (run' machine').without name = (run machine).without name

namespace Run

variable {α β : Type} {P : β → Prop} {Q : α → Prop}

theorem Overlooks.coupled {run : Run α} (h : run.Overlooks name)
    (hensures : run.Ensures (Scopes.Avoid name region) Q) : Coupled name region Q run run :=
  ⟨hensures, fun machine machine' _ ↦ h machine machine'⟩

theorem Coupled.bind {first first' : Run β} {next next' : β → Run α}
    (hfirst : Coupled name region P first first')
    (hnext : ∀ found, P found → Coupled name region Q (next found) (next' found)) :
    Coupled name region Q (first >>= next) (first' >>= next') := by
  refine ⟨.bind hfirst.ensures fun found hfound ↦ (hnext found hfound).ensures,
    fun machine machine' hsealed heq ↦ ?_⟩
  have hmiddle := hfirst.agrees machine machine' hsealed heq
  have hsatisfies := hfirst.ensures machine hsealed
  show (Run.bind first' next' machine').without name = (Run.bind first next machine).without name
  rw [Run.bind, Run.bind]
  -- Both halves end in the same way, with machines that again differ in the name only.
  cases hdone : first machine with
  | halted halt middle =>
    cases hdone' : first' machine' with
    | halted halt' middle' =>
      rw [hdone, hdone'] at hmiddle
      obtain ⟨rfl, hmachines⟩ := Outcome.halted.inj hmiddle
      exact congrArg (Outcome.halted halt') hmachines
    | done found' middle' =>
      rw [hdone, hdone'] at hmiddle
      cases hmiddle
  | done found middle =>
    cases hdone' : first' machine' with
    | halted halt' middle' =>
      rw [hdone, hdone'] at hmiddle
      cases hmiddle
    | done found' middle' =>
      rw [hdone, hdone'] at hmiddle
      rw [hdone] at hsatisfies
      obtain ⟨rfl, hmachines⟩ := Outcome.done.inj hmiddle
      exact (hnext found' hsatisfies.2).agrees middle middle' hsatisfies.1 hmachines

end Run

theorem lockstep_coupled (settings : Settings) {builtins : List (String × Builtin)}
    (hbuiltins : ∀ other, other ≠ name →
      Entries.get? builtins other = Entries.get? settings.builtins other)
    (region : FrameId → Prop) :
    Lockstep (Domain.inside True (Node.Avoids name) region) (· = ·) settings
      { settings with builtins } (Run.Coupled name region) := by
  have hsealed := lockstep_sealed True (Node.Avoids name) region settings
  -- Only look-ups depend on the name, and those of the domain are for other names.
  have hne {other : String}
      (h : (Domain.inside True (Node.Avoids name) region).Mentions other) : other ≠ name :=
    h.choose_spec
  exact {
    builtins := fun h ↦ (hbuiltins _ (hne h)).symm
    pure := fun h ↦ (Run.overlooks_pure _).coupled (hsealed.pure h)
    bind := Run.Coupled.bind
    print := by
      rintro depth _ found rfl h
      exact (Run.overlooks_print _ _).coupled (hsealed.print rfl h)
    openFrame := fun h ↦ (Run.overlooks_openFrame _).coupled (hsealed.openFrame h)
    setVariable := fun h h' ↦ (Run.overlooks_setVariable _ _ _).coupled (hsealed.setVariable h h')
    getVariable := fun h h' ↦
      (Run.overlooks_getVariable _ (hne h')).coupled (hsealed.getVariable h h')
    makeFunction := fun h h' ↦
      (Run.overlooks_makeFunction _ _ _).coupled (hsealed.makeFunction h h')
    noteBinding := by
      rintro depth _ other found rfl
      exact (Run.overlooks_note _ _ _ _).coupled (hsealed.noteBinding _ _ rfl)
    noteCondition := by
      rintro depth _ found rfl
      exact (Run.overlooks_note _ _ _ _).coupled (hsealed.noteCondition _ rfl)
    noteBuiltin := by
      rintro depth _ builtin values rfl
      exact (Run.overlooks_note _ _ _ _).coupled (hsealed.noteBuiltin _ _ rfl)
    noteCall := by
      rintro depth _ callee count rfl h
      exact (Run.overlooks_note _ _ _ _).coupled (hsealed.noteCall _ rfl h)
    noteStatement := by
      rintro depth _ statement result rfl h
      exact (Run.overlooks_note _ _ _ _).coupled (hsealed.noteStatement _ rfl h) }

theorem programResult_coupled (settings : Settings) {builtins : List (String × Builtin)}
    (hbuiltins : ∀ other, other ≠ name →
      Entries.get? builtins other = Entries.get? settings.builtins other)
    {frame : FrameId} (hframe : region frame) {statements : List Stmt}
    (hnodes : ∀ statement ∈ statements, statement.Every (Node.Avoids name)) :
    Run.Coupled name region (Domain.inside True (Node.Avoids name) region).GivesAny
      (programResult settings frame none statements)
      (programResult { settings with builtins } frame none statements) := by
  have hlockstep := lockstep_coupled settings hbuiltins region
  have hat := LockstepAt.same hlockstep (fun _ ↦ rfl)
    ((Run.overlooks_halt .depth).coupled (Run.ensures_halt .depth)) settings.depthLimit
  exact hat.programResult hlockstep rfl hframe hnodes Domain.givesAny_none

/-! ### Whole programs -/

/-- The values are bound to the name, each in its frame. -/
def Scopes.setEach (scopes : Scopes) (name : String) (writes : List (FrameId × Value)) : Scopes :=
  writes.foldl (fun scopes write ↦ scopes.set write.1 name write.2) scopes

theorem Scopes.without_setEach (scopes : Scopes) (name : String)
    (writes : List (FrameId × Value)) :
    (scopes.setEach name writes).without name = scopes.without name := by
  induction writes generalizing scopes with
  | nil => rfl
  | cons write rest ih =>
    rw [setEach, List.foldl_cons, ← setEach, ih, without_set_self]

theorem Outcome.without_concluded (settings : Settings) (outcome : Outcome (Option Value)) :
    (outcome.concluded settings).without name = (outcome.without name).concluded settings := by
  cases outcome with
  | done result machine => rfl
  | halted halt machine => cases halt <;> rfl

theorem Outcome.without_eq_halted_iff {α : Type} {outcome : Outcome α} {halt : Halt} :
    (∃ after, outcome.without name = .halted halt after) ↔
      ∃ after, outcome = .halted halt after := by
  cases outcome with
  | done value machine => simp [without]
  | halted other machine => simp [without]

/-- If neither the program nor a function that it can reach looks the name up, it does not matter
what the name is bound to, in whichever frames, nor whether it is that of a builtin function: the
outcomes differ in the bindings of the name only, and both runs or none come to the limit. -/
theorem unmentioned_names_do_not_matter (settings : Settings) (builtins : List (String × Builtin))
    (program : Program) (frame : FrameId) (machine : Machine) (name : String)
    (writes : List (FrameId × Value))
    (hbuiltins : ∀ other, other ≠ name →
      Entries.get? builtins other = Entries.get? settings.builtins other)
    (hprogram : ∀ statement ∈ program.statements, statement.Every (Node.Avoids name))
    (hreachable : machine.scopes.AllReachable (Value.Avoids name) (· = frame)) :
    let settings' := { settings with builtins }
    let machine' := { machine with scopes := machine.scopes.setEach name writes }
    (program.run settings' frame machine').without name =
        (program.run settings frame machine).without name ∧
      (program.ReachesLimit settings' frame machine' ↔
        program.ReachesLimit settings frame machine) := by
  intro settings' machine'
  have hsealed : machine.scopes.Avoid name (machine.scopes.Available (· = frame)) :=
    .of_reachable (hreachable.mono fun _ ↦ Value.Avoids.isSound)
  have hframe : machine.scopes.Available (· = frame) frame := .inl (.root rfl)
  have hmachines : machine'.without name = machine.without name :=
    Machine.without_eq_without_iff.mpr ⟨Scopes.without_setEach _ _ _, rfl, rfl, rfl⟩
  have hagrees := (programResult_coupled settings hbuiltins hframe hprogram).agrees
    machine machine' hsealed hmachines
  constructor
  · rw [Program.run_eq_concluded, Program.run_eq_concluded, Outcome.without_concluded,
      Outcome.without_concluded, hagrees]
    rfl
  · rw [Program.ReachesLimit, Program.ReachesLimit, ← Outcome.without_eq_halted_iff, hagrees,
      Outcome.without_eq_halted_iff]

/-- A program in the frame of a call, with a function among the bindings there and in the outer
frame; the name is removed from the builtin functions and bound in both frames, to a number and to a
function that does look it up. -/
theorem unmentioned_names_do_not_matter_behind_call :
    let machine := (runSource {}
      "let make = fn(a) \x7b fn(b) \x7b [a, b] \x7d \x7d; let pair = make(1);"
      topFrame Machine.start).machine
    let program := (Program.ofSource
      "let twice = fn(c) \x7b puts(c); pair(pair(c)) \x7d; twice([a, len(\"ab\")])").program
    let reading := (Program.ofSource "fn() \x7b first([1]) \x7d;").program
    let closure : Closure := ⟨9, [], .mk ⟨.lbrace, .string ""⟩ reading.statements, 0⟩
    let settings : Settings := { verbosity := 3 }
    let settings' := { settings with builtins := Entries.without "first" Builtin.table }
    let machine' := { machine with
      scopes := machine.scopes.setEach "first" [(0, .integer 7), (1, .function closure)] }
    (∀ statement ∈ program.statements, statement.Every (Node.Avoids "first")) ∧
      machine.scopes.AllReachable (Value.Avoids "first") (· = 1) ∧
        (program.run settings' 1 machine').without "first" =
            (program.run settings 1 machine).without "first" ∧
          (program.ReachesLimit settings' 1 machine' ↔
            program.ReachesLimit settings 1 machine) := by
  intro machine program reading closure settings settings' machine'
  have hprogram : ∀ statement ∈ program.statements, statement.Every (Node.Avoids "first") := by
    decide +kernel
  have hbindings : machine.scopes.AllBindings (Value.All (Value.Avoids "first")) := by
    decide +kernel
  have hreachable := hbindings.allReachable (· = 1)
  exact ⟨hprogram, hreachable,
    unmentioned_names_do_not_matter settings _ program 1 machine "first" _
      (fun _ ↦ Entries.get?_without) hprogram hreachable⟩

end MonkeyLang
