import Mathlib.Tactic
import MonkeyLang.Proofs.Evaluation.Reachable
import MonkeyLang.Proofs.Evaluation.Room

/-!
# Tracing does not interfere

Two runs that differ in their verbosity only do the same: they give the same value, print the same
and leave the same variables, and the trace of the quieter one is that of the louder one without the
lines whose level is too high for it (`Outcome.Dims`). Each line belongs to a point of evaluation
that settles its level (`Event.IsLine`).

There is one thing that a trace can do to a run. The text of a line takes nested steps, and it may
render a literal whose token has no text; a run that has no room for the line or meets such a
literal is halted there, and a run that does not show this line goes on. The first is a matter of
the limit on nested steps. The second cannot be met if the literals have a text, in the program and
in the functions that it can reach, as they have unless the tree was read from a document that gives
something else (`programResult_completes`).
-/

set_option autoImplicit false

namespace MonkeyLang

/-! ### Lines of the trace -/

/-- The points of evaluation that are traced: the statements of the program and its end at the limit
on nested steps, bindings and calls of functions, conditions and calls of builtin functions. -/
inductive Event.IsLine : Event → Prop
  | statement (statement : Stmt) (result : Option Value) :
    IsLine ⟨1, statement.render ++ " => " ++ (result.map Value.inspect).getD "<no value>"⟩
  | limit : IsLine ⟨1, "recursion limit reached"⟩
  | binding (name : String) (value : Value) : IsLine ⟨2, "let " ++ name ++ " = " ++ value.inspect⟩
  | call (callee : Expr) (count : Nat) :
    IsLine ⟨2, "call " ++ callee.render ++ " with " ++ toString count ++ " argument(s)"⟩
  | condition (value : Value) :
    IsLine ⟨3, "if condition " ++ value.inspect ++ " -> " ++ inspectBool value.truthy⟩
  | builtin (builtin : Builtin) (arguments : List Value) :
    IsLine ⟨3, "builtin " ++ builtin.name ++ "(" ++
      ", ".intercalate (arguments.map Value.inspect) ++ ")"⟩

theorem Event.IsLine.level_mem_Icc {event : Event} (h : event.IsLine) :
    event.level ∈ Set.Icc 1 3 := by
  cases h <;> exact ⟨Nat.le_of_ble_eq_true rfl, Nat.le_of_ble_eq_true rfl⟩

/-- The events that are shown at a verbosity. -/
def Event.shownAt (verbosity : Int) (events : List Event) : List Event :=
  events.filter fun event ↦ event.level ≤ verbosity

namespace Event

variable {events : List Event}

theorem shownAt_append (verbosity : Int) (events more : List Event) :
    shownAt verbosity (events ++ more) = shownAt verbosity events ++ shownAt verbosity more :=
  List.filter_append ..

theorem shownAt_of_three_le {verbosity : Int} (hverbosity : 3 ≤ verbosity)
    (hlines : ∀ event ∈ events, event.IsLine) : shownAt verbosity events = events := by
  refine List.filter_eq_self.mpr fun event hmem ↦ decide_eq_true ?_
  have hlevel := (hlines event hmem).level_mem_Icc.2
  omega

theorem shownAt_of_le_zero {verbosity : Int} (hverbosity : verbosity ≤ 0)
    (hlines : ∀ event ∈ events, event.IsLine) : shownAt verbosity events = [] := by
  refine List.filter_eq_nil_iff.mpr fun event hmem hshown ↦ ?_
  have hlevel := (hlines event hmem).level_mem_Icc.1
  have hle := of_decide_eq_true hshown
  omega

end Event

/-! ### Quiet and loud runs -/

def Machine.withTrace (trace : List Event) (machine : Machine) : Machine :=
  { machine with trace := trace.toArray }

def Outcome.withTrace {α : Type} (trace : List Event) : Outcome α → Outcome α
  | .done value machine => .done value (machine.withTrace trace)
  | .halted reason machine => .halted reason (machine.withTrace trace)

namespace Outcome

variable {α : Type}

@[simp] theorem trace_withTrace (trace : Array Event) (outcome : Outcome α) :
    (outcome.withTrace trace.toList).machine.trace = trace := by
  cases outcome <;> rfl

@[simp] theorem withTrace_self (outcome : Outcome α) :
    outcome.withTrace outcome.machine.trace.toList = outcome := by
  cases outcome <;> rfl

end Outcome

/-- The quiet outcome is the loud one, but for the events since `base` that need a verbosity greater
than `low`. -/
def Outcome.Dims {α : Type} (low : Int) (base : List Event) (quiet loud : Outcome α) : Prop :=
  ∃ events : List Event, (∀ event ∈ events, event.IsLine) ∧
    loud.machine.trace.toList = base ++ events ∧
      quiet = loud.withTrace (base ++ Event.shownAt low events)

/-- A line of the trace is shown at the higher verbosity and not at the lower one. -/
def ShowsMore (low high : Int) : Prop :=
  ∃ level : Nat, level ∈ Set.Icc 1 3 ∧ low < level ∧ level ≤ high

/-- A computation was halted. -/
def Outcome.IsHalted {α : Type} (outcome : Outcome α) : Prop :=
  ∃ reason after, outcome = .halted reason after

/-- A computation was halted by a literal without a text. -/
def Outcome.IsStopped {α : Type} (outcome : Outcome α) : Prop :=
  ∃ literal after, outcome = .halted (.nonText literal) after

theorem Outcome.not_isStopped_done {α : Type} (found : α) (after : Machine) :
    ¬ (Outcome.done found after).IsStopped := by
  rintro ⟨literal, other, heq⟩
  cases heq

theorem Outcome.not_isStopped_depth {α : Type} (after : Machine) :
    ¬ (Outcome.halted .depth after : Outcome α).IsStopped := by
  rintro ⟨literal, other, heq⟩
  cases heq

/-- The two outcomes are the same but for the trace, or the loud run was halted in a line that only
it shows. -/
def Outcome.Follows {α : Type} (low high : Int) (base : List Event) (Q : α → Prop)
    (quiet loud : Outcome α) : Prop :=
  loud.Satisfies (fun _ ↦ True) Q ∧ quiet.Dims low base loud ∨ ShowsMore low high ∧ loud.IsHalted

namespace Run

variable {α β : Type} {low high : Int} {base : List Event} {Q : α → Prop}

/-- From machines that differ by the trace only, the outcomes do. -/
def Follows (low high : Int) (base : List Event) (Q : α → Prop) (quiet loud : Run α) : Prop :=
  ∀ (machine : Machine) (events : List Event), (∀ event ∈ events, event.IsLine) →
    machine.trace.toList = base ++ events →
      (quiet (machine.withTrace (base ++ Event.shownAt low events))).Follows low high base Q
        (loud machine)

/-- A step that does not look at the trace. -/
theorem follows_of_withTrace {run : Run α} (hrun : ∀ machine trace,
      run (Machine.withTrace trace machine) = (run machine).withTrace trace)
    (hvalue : ∀ machine, (run machine).Satisfies (fun _ ↦ True) Q)
    (htrace : ∀ machine, (run machine).machine.trace = machine.trace) :
    Follows low high base Q run run := by
  intro machine events hlines hevents
  refine .inl ⟨hvalue machine, events, hlines, ?_, hrun machine _⟩
  rw [htrace, hevents]

theorem follows_pure {found : α} (hfound : Q found) :
    Follows low high base Q (pure found : Run α) (pure found) :=
  follows_of_withTrace (fun _ _ ↦ rfl) (fun _ ↦ ⟨trivial, hfound⟩) fun _ ↦ rfl

theorem follows_halt (reason : Halt) :
    Follows low high base Q (Run.halt reason : Run α) (Run.halt reason) :=
  follows_of_withTrace (fun _ _ ↦ rfl) (fun _ ↦ trivial) fun _ ↦ rfl

theorem Follows.bind {P : β → Prop} {first first' : Run β} {next next' : β → Run α}
    (hfirst : Follows low high base P first first')
    (hnext : ∀ found, P found → Follows low high base Q (next found) (next' found)) :
    Follows low high base Q (first >>= next) (first' >>= next') := by
  intro machine events hlines hevents
  have hfollows := hfirst machine events hlines hevents
  show (Run.bind first next _).Follows low high base Q (Run.bind first' next' machine)
  rw [Run.bind, Run.bind]
  cases houtcome : first' machine with
  | halted reason after =>
    rw [houtcome] at hfollows
    rcases hfollows with ⟨-, events', hlines', hevents', heq⟩ | ⟨hmore, -⟩
    · rw [heq]
      exact .inl ⟨trivial, events', hlines', hevents', rfl⟩
    · exact .inr ⟨hmore, reason, after, rfl⟩
  | done found after =>
    rw [houtcome] at hfollows
    rcases hfollows with ⟨hfound, events', hlines', hevents', heq⟩ | ⟨-, reason, stop, heq⟩
    · rw [heq]
      exact hnext found hfound.2 after events' hlines' hevents'
    · cases heq

theorem follows_print (room : Room) (value : Value) :
    Follows low high base (fun _ ↦ True) (print room value) (print room value) := by
  intro machine events hlines hevents
  rw [print, print]
  cases Halt.within Steps.alone value.obstacle? room with
  | some reason => exact .inl ⟨trivial, events, hlines, hevents, rfl⟩
  | none => exact .inl ⟨⟨trivial, trivial⟩, events, hlines, hevents, rfl⟩

variable {settings : Settings}

theorem follows_note (hle : low ≤ high) {level : Nat} (obstacle : Unit → Option Halt)
    {text : Unit → String} (hline : Event.IsLine ⟨level, text ()⟩) :
    Follows low high base (fun _ ↦ True)
      (note { settings with verbosity := low } level obstacle text)
      (note { settings with verbosity := high } level obstacle text) := by
  intro machine events hlines hevents
  rw [note, note]
  by_cases hhigh : level ≤ high
  · rw [if_pos hhigh]
    cases obstacle () with
    | some reason =>
      split_ifs with hlow
      · exact .inl ⟨trivial, events, hlines, hevents, rfl⟩
      · exact .inr ⟨⟨level, hline.level_mem_Icc, lt_of_not_ge hlow, hhigh⟩, reason, machine, rfl⟩
    | none =>
      have hlines' : ∀ event ∈ events ++ [⟨level, text ()⟩], event.IsLine := by
        intro event hmem
        rcases List.mem_append.mp hmem with hmem | hmem
        · exact hlines event hmem
        · rwa [List.mem_singleton.mp hmem]
      refine .inl ⟨⟨trivial, trivial⟩, _, hlines', ?_, ?_⟩
      · simp [Outcome.machine, hevents]
      · rw [Event.shownAt_append]
        split_ifs with hlow
        · simp [Outcome.withTrace, Machine.withTrace, Event.shownAt, hlow]
        · simp [Outcome.withTrace, Machine.withTrace, Event.shownAt, hlow]
  · rw [if_neg hhigh, if_neg fun hlow : level ≤ low ↦ hhigh (hlow.trans hle)]
    exact .inl ⟨⟨trivial, trivial⟩, events, hlines, hevents, rfl⟩

end Run

/-! ### Programs -/

namespace Evaluation

variable (settings : Settings) {low high : Int}

theorem lockstep_follows (hle : low ≤ high) (base : List Event) :
    Lockstep Domain.all (· = ·) { settings with verbosity := low }
      { settings with verbosity := high } (Run.Follows low high base) where
  builtins _ := rfl
  pure := Run.follows_pure
  bind := Run.Follows.bind
  print := by
    rintro depth _ found rfl -
    exact Run.follows_print _ _
  openFrame _ := Run.follows_of_withTrace (fun _ _ ↦ rfl) (fun _ ↦ ⟨trivial, trivial⟩) fun _ ↦ rfl
  setVariable _ _ :=
    Run.follows_of_withTrace (fun _ _ ↦ rfl) (fun _ ↦ ⟨trivial, trivial⟩) fun _ ↦ rfl
  getVariable _ _ :=
    Run.follows_of_withTrace (fun _ _ ↦ rfl) (fun _ ↦ ⟨trivial, fun _ _ ↦ trivial⟩) fun _ ↦ rfl
  makeFunction _ _ :=
    Run.follows_of_withTrace (fun _ _ ↦ rfl) (fun _ ↦ ⟨trivial, .inl trivial⟩) fun _ ↦ rfl
  noteBinding := by
    rintro depth _ name found rfl
    exact Run.follows_note hle _ (.binding name found)
  noteCondition := by
    rintro depth _ found rfl
    exact Run.follows_note hle _ (.condition found)
  noteBuiltin := by
    rintro depth _ builtin values rfl
    exact Run.follows_note hle _ (.builtin builtin values)
  noteCall := by
    rintro depth _ callee count rfl -
    exact Run.follows_note hle _ (.call callee count)
  noteStatement := by
    rintro depth _ statement result rfl -
    exact Run.follows_note hle _ (.statement statement result)

theorem programResult_follows (hle : low ≤ high) (frame : FrameId) (statements : List Stmt)
    (machine : Machine) :
    (programResult { settings with verbosity := low } frame none statements machine).Follows
      low high machine.trace.toList Domain.all.GivesAny
      (programResult { settings with verbosity := high } frame none statements machine) := by
  have hlockstep := lockstep_follows settings hle machine.trace.toList
  have hat := LockstepAt.same hlockstep (fun _ ↦ rfl) (Run.follows_halt .depth) settings.depthLimit
  have hfollows : Run.Follows low high machine.trace.toList Domain.all.GivesAny
      (programResult { settings with verbosity := low } frame none statements)
      (programResult { settings with verbosity := high } frame none statements) :=
    hat.programResult hlockstep rfl trivial
      (fun statement _ ↦ Stmt.every_of_forall (fun _ ↦ trivial) statement) Domain.givesAny_none
  have hstart := hfollows machine [] (List.forall_mem_nil _) (List.append_nil _).symm
  simpa [Event.shownAt, Machine.withTrace] using hstart

end Evaluation

theorem Settings.shownAt_limitEvents (settings : Settings) {low high : Int} (hle : low ≤ high) :
    Event.shownAt low { settings with verbosity := high }.limitEvents =
      { settings with verbosity := low }.limitEvents := by
  simp only [limitEvents]
  split_ifs with hhigh hlow hlow
  · simp [Event.shownAt, hlow]
  · simp [Event.shownAt, hlow]
  · exact absurd (hlow.trans hle) hhigh
  · rfl

theorem Settings.isLine_of_mem_limitEvents {settings : Settings} {event : Event}
    (hmem : event ∈ settings.limitEvents) : event.IsLine := by
  rw [limitEvents] at hmem
  split_ifs at hmem
  · rw [List.mem_singleton.mp hmem]
    exact .limit
  · cases hmem

theorem Outcome.Follows.concluded {settings : Settings} {low high : Int} (hle : low ≤ high)
    {base : List Event} {Q : Option Value → Prop} {quiet loud : Outcome (Option Value)}
    (h : quiet.Follows low high base Q loud) :
    (quiet.concluded { settings with verbosity := low }).Dims low base
        (loud.concluded { settings with verbosity := high }) ∨
      ShowsMore low high ∧ loud.IsHalted := by
  rcases h with ⟨-, events, hlines, hevents, rfl⟩ | hhalted
  · refine .inl ?_
    cases loud with
    | done result after => exact ⟨events, hlines, hevents, rfl⟩
    | halted reason after =>
      cases reason with
      | nonText literal => exact ⟨events, hlines, hevents, rfl⟩
      | depth =>
        have hevents : after.trace.toList = base ++ events := hevents
        refine ⟨events ++ { settings with verbosity := high }.limitEvents, ?_, ?_, ?_⟩
        · intro event hmem
          rcases List.mem_append.mp hmem with hmem | hmem
          · exact hlines event hmem
          · exact Settings.isLine_of_mem_limitEvents hmem
        · simp [Outcome.concluded, Outcome.machine, hevents]
        · rw [Event.shownAt_append, Settings.shownAt_limitEvents settings hle]
          simp [Outcome.concluded, Outcome.withTrace, Machine.withTrace, Machine.noteLimit]
  · exact .inr hhalted

/-! ### Programs whose literals have a text -/

namespace Value

variable {errors : Prop} {region : FrameId → Prop}

mutual

theorem obstacle?_none : (value : Value) → value.All (IsSound errors Node.HasText region) →
    value.obstacle? none = none
  | .returned value, h => obstacle?_none value (all_returned_iff.mp h).2
  | .function closure, h => closure.body.every_hasText_iff.mp (all_function_iff.mp h).2
  | .array elements, h => obstacleIn?_none elements (all_array_iff.mp h).2
  | .hash pairs, h =>
    obstacleInPairs?_none pairs fun pair hmem ↦ ((all_hash_iff.mp h).2 pair hmem).2
  | .integer _, _ | .string _, _ | .boolean _, _ | .null, _ | .builtin _, _ | .error _, _ => rfl

theorem obstacleIn?_none : (values : List Value) →
    (∀ value ∈ values, value.All (IsSound errors Node.HasText region)) →
      obstacleIn? values none = none
  | [], _ => rfl
  | value :: rest, h => by
    rw [obstacleIn?, Halt.within_none, obstacle?_none value (h value (.head _)),
      obstacleIn?_none rest fun other hmem ↦ h other (.tail _ hmem)]
    rfl

theorem obstacleInPairs?_none : (pairs : List (Key × Value)) →
    (∀ pair ∈ pairs, pair.2.All (IsSound errors Node.HasText region)) →
      obstacleInPairs? pairs none = none
  | [], _ => rfl
  | (key, value) :: rest, h => by
    rw [obstacleInPairs?, Halt.within_none, obstacle?_none value (h (key, value) (.head _)),
      obstacleInPairs?_none rest fun other hmem ↦ h other (.tail _ hmem)]
    rfl

end

end Value

namespace Run

variable {α β : Type} {invariant : Scopes → Prop} {Q : α → Prop}

/-- The computation ensures the property, and is never stopped by a literal without a text. -/
def Completes (invariant : Scopes → Prop) (Q : α → Prop) (run : Run α) : Prop :=
  run.Ensures invariant Q ∧
    ∀ machine : Machine, invariant machine.scopes → ¬ (run machine).IsStopped

theorem Completes.bind {P : β → Prop} {first : Run β} {next : β → Run α}
    (hfirst : first.Completes invariant P)
    (hnext : ∀ found, P found → (next found).Completes invariant Q) :
    (first >>= next).Completes invariant Q := by
  refine ⟨hfirst.1.bind fun found hfound ↦ (hnext found hfound).1, fun machine hmachine ↦ ?_⟩
  have hsatisfies := hfirst.1 machine hmachine
  have hstopped := hfirst.2 machine hmachine
  show ¬ (Run.bind first next machine).IsStopped
  rw [Run.bind]
  cases houtcome : first machine with
  | done found after =>
    rw [houtcome] at hsatisfies
    exact (hnext found hsatisfies.2).2 after hsatisfies.1
  | halted reason after =>
    rw [houtcome] at hstopped
    rintro ⟨literal, stop, heq⟩
    obtain ⟨rfl, rfl⟩ := Outcome.halted.inj heq
    exact hstopped ⟨literal, _, rfl⟩

/-- A run that is not halted at all. -/
theorem Ensures.completes {run : Run α} (h : run.Ensures invariant Q)
    (hdone : ∀ machine, ∃ found after, run machine = .done found after) :
    run.Completes invariant Q := by
  refine ⟨h, fun machine _ ↦ ?_⟩
  obtain ⟨found, after, heq⟩ := hdone machine
  rw [heq]
  exact Outcome.not_isStopped_done found after

theorem completes_halt : (halt .depth : Run α).Completes invariant Q :=
  ⟨ensures_halt .depth, fun machine _ ↦ Outcome.not_isStopped_depth machine⟩

theorem not_isStopped_print {value : Value} (hnone : value.obstacle? none = none) (room : Room)
    (machine : Machine) : ¬ (print room value machine).IsStopped := by
  rw [print]
  rcases (value.widens_obstacle?.within Steps.alone).eq_depth hnone room with heq | heq
  · rw [heq]
    exact Outcome.not_isStopped_done _ _
  · rw [heq]
    exact Outcome.not_isStopped_depth machine

/-- A line of the trace that nothing but a lack of room can stop. -/
theorem completes_note {obstacle : Room → Option Halt} (hwidens : Halt.Widens obstacle)
    (hnone : obstacle none = none) (settings : Settings) (level : Nat) (room : Room)
    (text : Unit → String) :
    (note settings level (fun _ ↦ obstacle room) text).Completes invariant fun _ ↦ True := by
  refine ⟨ensures_note _ _ _ _, fun machine _ ↦ ?_⟩
  rw [note]
  split_ifs
  · rcases hwidens.eq_depth hnone room with heq | heq
    · rw [heq]
      exact Outcome.not_isStopped_done _ _
    · rw [heq]
      exact Outcome.not_isStopped_depth machine
  · exact Outcome.not_isStopped_done _ machine

end Run

namespace Evaluation

variable {region : FrameId → Prop}

theorem lockstep_completes (region : FrameId → Prop) (settings : Settings) :
    Lockstep (Domain.inside True Node.HasText region) (· = ·) settings settings fun Q run _ ↦
      run.Completes (Scopes.Sealed (Value.IsSound True Node.HasText region) region) Q :=
  have hsealed := lockstep_sealed True Node.HasText region settings
  { builtins := fun _ ↦ rfl
    pure := fun hfound ↦ (hsealed.pure hfound).completes fun _ ↦ ⟨_, _, rfl⟩
    bind := Run.Completes.bind
    print := fun {_ _ found} hpace hfound ↦ ⟨hsealed.print hpace hfound, fun machine _ ↦
      Run.not_isStopped_print (Value.obstacle?_none found hfound) _ machine⟩
    openFrame := fun hframe ↦ (hsealed.openFrame hframe).completes fun _ ↦ ⟨_, _, rfl⟩
    setVariable := fun hframe hfound ↦
      (hsealed.setVariable hframe hfound).completes fun _ ↦ ⟨_, _, rfl⟩
    getVariable := fun hframe hname ↦
      (hsealed.getVariable hframe hname).completes fun _ ↦ ⟨_, _, rfl⟩
    makeFunction := fun hframe hbody ↦
      (hsealed.makeFunction hframe hbody).completes fun _ ↦ ⟨_, _, rfl⟩
    noteBinding := fun _ _ _ ↦ Run.completes_note (Halt.widens_beyond _) rfl _ _ _ _
    noteCondition := fun _ _ ↦ Run.completes_note (Halt.widens_beyond _) rfl _ _ _ _
    noteBuiltin := fun _ _ _ ↦ Run.completes_note (Halt.widens_beyond _) rfl _ _ _ _
    noteCall := fun {_ _ callee} _ _ hcallee ↦
      Run.completes_note (callee.widens_obstacle?.within _) (callee.every_hasText_iff.mp hcallee)
        _ _ _ _
    noteStatement := fun {_ _ statement} result _ hstatement ↦ by
      refine Run.completes_note (widens_statementObstacle? statement result) ?_ _ _ _ _
      rw [statementObstacle?, Halt.within_none, statement.every_hasText_iff.mp hstatement]
      rfl }

theorem programResult_completes (settings : Settings) {frame : FrameId} (hframe : region frame)
    {statements : List Stmt} (htext : Stmt.obstacleIn? statements none = none) :
    (programResult settings frame none statements).Completes
      (Scopes.Sealed (Value.IsSound True Node.HasText region) region)
      (Domain.inside True Node.HasText region).GivesAny := by
  have hlockstep := lockstep_completes region settings
  have hat := LockstepAt.same hlockstep (fun _ ↦ rfl) Run.completes_halt settings.depthLimit
  refine hat.programResult hlockstep rfl hframe ?_ Domain.givesAny_none
  exact Stmt.everyIn_iff.mp ((Stmt.everyIn_hasText_iff statements).mpr htext)

end Evaluation

theorem Value.isSound_of_obstacle? {value : Value} (h : value.obstacle? none = none) :
    value.IsSound True Node.HasText fun _ ↦ True := by
  cases value with
  | function closure => exact ⟨trivial, closure.body.every_hasText_iff.mpr h⟩
  | _ => trivial

/-- The statements of a program whose literals have a text, and that can reach no others, are never
stopped by one. -/
theorem Program.not_isStopped (settings : Settings) {program : Program} {frame : FrameId}
    {machine : Machine} (htext : program.obstacle? none = none)
    (hstart : machine.scopes.AllReachable (·.obstacle? none = none) (· = frame)) :
    ¬ (Evaluation.programResult settings frame none program.statements machine).IsStopped := by
  have hframe : machine.scopes.Available (· = frame) frame := .inl (.root rfl)
  refine (Evaluation.programResult_completes settings hframe htext).2 machine ?_
  exact .of_reachable (hstart.mono fun _ ↦ Value.isSound_of_obstacle?)

/-- At the lower of two verbosities a program does what it does at the higher one, with the lines of
the trace left out whose level is too high, unless the statements were halted at the higher one, by
a line that only that one shows. This takes too many nested steps or a literal without a text, so it
does not happen if the louder run keeps to the limit and all literals have a text. From verbosity 3
on nothing changes any more, and up to 0 nothing is traced. -/
theorem tracing_does_not_interfere (settings : Settings) (program : Program) (frame : FrameId)
    (machine : Machine) {low high : Int} (hle : low ≤ high) :
    let quiet := program.run { settings with verbosity := low } frame machine
    let loud := program.run { settings with verbosity := high } frame machine
    (quiet.Dims low machine.trace.toList loud ∨
        ShowsMore low high ∧ (Evaluation.programResult { settings with verbosity := high } frame
          none program.statements machine).IsHalted) ∧
      (program.obstacle? none = none →
        machine.scopes.AllReachable (·.obstacle? none = none) (· = frame) →
          ¬ program.ReachesLimit { settings with verbosity := high } frame machine →
            quiet.Dims low machine.trace.toList loud) ∧
      (3 ≤ low → quiet = loud) ∧
      (low ≤ 0 → quiet.machine.trace = machine.trace) := by
  have hdims {high : Int} (hle : low ≤ high) :
      (program.run { settings with verbosity := low } frame machine).Dims low machine.trace.toList
          (program.run { settings with verbosity := high } frame machine) ∨
        ShowsMore low high ∧ (Evaluation.programResult { settings with verbosity := high } frame
          none program.statements machine).IsHalted := by
    rw [Program.run_eq_concluded, Program.run_eq_concluded]
    exact (Evaluation.programResult_follows settings hle frame program.statements machine).concluded
      hle
  refine ⟨hdims hle, fun htext hstart hlimit ↦ ?_, fun hlow ↦ ?_, fun hlow ↦ ?_⟩
  · refine (hdims hle).resolve_right ?_
    rintro ⟨-, reason, after, hhalted⟩
    cases reason with
    | depth => exact hlimit ⟨after, hhalted⟩
    | nonText literal => exact Program.not_isStopped _ htext hstart ⟨literal, after, hhalted⟩
  · obtain ⟨events, hlines, hevents, heq⟩ := (hdims hle).resolve_right fun hhalted ↦ by
      obtain ⟨level, hlevel, hlt, -⟩ := hhalted.1
      have hbound := hlevel.2
      omega
    rw [Event.shownAt_of_three_le hlow hlines, ← hevents] at heq
    rw [heq]
    exact Outcome.withTrace_self _
  · -- Against itself a run is not halted in a line that only one of the two shows.
    obtain ⟨events, hlines, hevents, heq⟩ := (hdims le_rfl).resolve_right fun hhalted ↦ by
      obtain ⟨level, -, hlt, hle⟩ := hhalted.1
      omega
    rw [Event.shownAt_of_le_zero hlow hlines, List.append_nil] at heq
    rw [heq]
    exact Outcome.trace_withTrace _ _

/-- Every kind of line, of which the first verbosity shows the two statements. -/
theorem tracing_does_not_interfere_of_calls :
    let program := (Program.ofSource
      "let f = fn(x) \x7b if (x) \x7b puts(len([x])) \x7d \x7d; f(true)").program
    (program.run { verbosity := 1 } topFrame Machine.start).Dims 1 []
      (program.run { verbosity := 3 } topFrame Machine.start) := by
  intro program
  have htext : (program.obstacle? none).isNone := by decide +kernel
  have hkept : ¬ (Evaluation.programResult { verbosity := 3 } topFrame none program.statements
      Machine.start).isTooDeep := by decide +kernel
  exact (tracing_does_not_interfere {} program topFrame Machine.start
    (by decide : (1 : Int) ≤ 3)).2.1 (Option.isNone_iff_eq_none.mp htext)
      (Scopes.allReachable_start _ _) (mt Outcome.isTooDeep_iff.mpr hkept)

/-- A literal whose token has a number in the place of its text is a value when nothing is traced,
and has no line in a trace. -/
theorem tracing_stops_at_literal_without_text :
    let program : Program :=
      ⟨[.expression ⟨.integer, .integer 5⟩ (.integer ⟨.integer, .integer 5⟩ 5)]⟩
    program.run { verbosity := 0 } topFrame Machine.start =
        .done (some (.integer 5)) Machine.start ∧
      program.run { verbosity := 1 } topFrame Machine.start =
        .halted (.nonText (.integer 5)) Machine.start :=
  ⟨by cbv, by cbv⟩

end MonkeyLang
