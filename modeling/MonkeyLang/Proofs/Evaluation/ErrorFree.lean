import Mathlib.Tactic
import MonkeyLang.Proofs.Evaluation.Reachable

/-!
# Errors are never stored

A runtime error is a value like any other, and still no binding ever holds one: before a value is
bound, put into an array or a hash, wrapped by a `return` or given to a builtin function, an error
among the values has already ended what was being evaluated. So the result of a program is an error,
or there is none anywhere inside of it.

This holds of everything that can be reached, from the frame in which programs are run one after the
other as well as from the functions that their results hold, and however each of the programs ends.
It also tells the error for too many nested steps from all others: as no binding holds it, it is the
result of a program only where the statements of the program were halted (`exists_halted`).
-/

set_option autoImplicit false

namespace MonkeyLang

open Evaluation

/-! ### One program -/

theorem Value.isSound_of_not_isError {value : Value} (h : value.isError = false) :
    value.IsSound False (fun _ ↦ True) fun _ ↦ True := by
  cases value with
  | error failure => cases h
  | function closure => exact ⟨trivial, Block.every_of_forall (fun _ ↦ trivial) _⟩
  | _ => trivial

theorem Value.IsSound.not_isError {node : Node → Prop} {region : FrameId → Prop} {value : Value}
    (h : value.IsSound False node region) : value.isError = false := by
  cases value with
  | error failure => exact h.elim
  | _ => rfl

variable {frame : FrameId} {region : FrameId → Prop}

/-- Without errors in what can be reached, the available frames are a region without errors. -/
theorem Scopes.AllReachable.sealed {scopes : Scopes} {roots : FrameId → Prop}
    (h : scopes.AllReachable (·.isError = false) roots) :
    scopes.Sealed (Value.IsSound False (fun _ ↦ True) (scopes.Available roots))
      (scopes.Available roots) :=
  .of_reachable (h.mono fun _ ↦ Value.isSound_of_not_isError)

theorem programResult_errorFree (settings : Settings) (hframe : region frame)
    (statements : List Stmt) :
    (programResult settings frame none statements).Ensures
      (Scopes.Sealed (Value.IsSound False (fun _ ↦ True) region) region)
      (Domain.inside False (fun _ ↦ True) region).GivesAny :=
  programResult_sealed settings hframe fun statement _ ↦
    Stmt.every_of_forall (fun _ ↦ trivial) statement

theorem Program.run_errorFree (settings : Settings) (program : Program) (hframe : region frame) :
    (program.run settings frame).Ensures
      (Scopes.Sealed (Value.IsSound False (fun _ ↦ True) region) region)
      fun result ↦ ∀ value ∈ result,
        value.isError ∨ value.All (Value.IsSound False (fun _ ↦ True) region) := by
  refine Program.ensures_run ((programResult_errorFree settings hframe program.statements).mono
    fun result hresult value hvalue ↦ ?_) ?_
  · rcases hresult value hvalue with hfound | ⟨failure, rfl, -⟩
    · exact .inr hfound
    · exact .inl rfl
  · rintro value ⟨⟩
    exact .inl rfl

/-- Whether the result is the error for too many nested steps. -/
def Outcome.isDepthExceeded (outcome : Outcome (Option Value)) : Bool :=
  outcome.failure?.any (·.kind = .depthExceeded)

/-- Only statements that were halted give the error for too many nested steps. -/
theorem Program.exists_halted {settings : Settings} {program : Program} {machine : Machine}
    (hstart : machine.scopes.AllReachable (·.isError = false) (· = frame))
    (hdeep : (program.run settings frame machine).isDepthExceeded) :
    ∃ after, programResult settings frame none program.statements machine =
      .halted .depth after := by
  have hframe : machine.scopes.Available (· = frame) frame := .inl (.root rfl)
  have hresult := programResult_errorFree settings hframe program.statements machine hstart.sealed
  rw [Program.run_eq_concluded] at hdeep
  cases houtcome : programResult settings frame none program.statements machine with
  | halted halt after =>
    rw [houtcome] at hdeep
    cases halt with
    | depth => exact ⟨after, rfl⟩
    | nonText literal => cases hdeep
  | done result after =>
    rw [houtcome] at hdeep hresult
    obtain ⟨failure, hfailure, hkind⟩ := (Option.any_eq_true _ _).mp hdeep
    obtain ⟨rfl, -⟩ := Outcome.done.inj (Outcome.eq_done_of_failure? hfailure)
    rcases hresult.2 _ rfl with hsound | ⟨other, heq, hne⟩
    · exact hsound.self.elim
    · obtain rfl := Value.error.inj heq
      exact absurd (of_decide_eq_true hkind) hne

/-! ### Programs one after the other -/

/-- The outcomes of programs that are run one after the other in a frame, each with settings of its
own and with the machine that the one before has left. -/
def Program.outcomes (frame : FrameId) :
    List (Settings × Program) → Machine → List (Outcome (Option Value))
  | [], _ => []
  | (settings, program) :: rest, machine =>
    let outcome := program.run settings frame machine
    outcome :: outcomes frame rest outcome.machine

/-- The frame of a function that occurs in the result of one of the outcomes. -/
def Outcome.HoldFrame (outcomes : List (Outcome (Option Value))) (frame : FrameId) : Prop :=
  ∃ value after closure, .done (some value) after ∈ outcomes ∧
    (Value.function closure).Occurs value ∧ closure.frame = frame

/-- What every program makes of variables that have the invariant. -/
theorem Program.forall_mem_outcomes {invariant : Scopes → Prop}
    {property : Outcome (Option Value) → Prop} {programs : List (Settings × Program)}
    (hprograms : ∀ entry ∈ programs, ∀ machine : Machine, invariant machine.scopes →
      invariant (entry.2.run entry.1 frame machine).machine.scopes ∧
        property (entry.2.run entry.1 frame machine))
    {machine : Machine} (hmachine : invariant machine.scopes) :
    ∀ outcome ∈ Program.outcomes frame programs machine, property outcome := by
  induction programs generalizing machine with
  | nil => exact nofun
  | cons entry rest ih =>
    obtain ⟨hafter, hfirst⟩ := hprograms entry (.head _) machine hmachine
    rintro outcome (_ | ⟨_, hmem⟩)
    · exact hfirst
    · exact ih (fun next hnext ↦ hprograms next (.tail _ hnext)) hafter outcome hmem

theorem Program.outcomes_satisfy {invariant : Scopes → Prop} {property : Option Value → Prop}
    {programs : List (Settings × Program)}
    (hprograms : ∀ entry ∈ programs, (entry.2.run entry.1 frame).Ensures invariant property)
    {machine : Machine} (hmachine : invariant machine.scopes) :
    ∀ outcome ∈ Program.outcomes frame programs machine, outcome.Satisfies invariant property := by
  refine Program.forall_mem_outcomes (fun entry hmem machine hmachine ↦ ?_) hmachine
  have hrun := hprograms entry hmem machine hmachine
  exact ⟨hrun.invariant, hrun⟩

/-- After each of the programs, nothing that can be reached from their frame or from their results
is or holds an error, and the result itself either is an error or holds none. -/
theorem errors_are_never_stored (frame : FrameId) (programs : List (Settings × Program))
    (machine : Machine) (hstart : machine.scopes.AllReachable (·.isError = false) (· = frame)) :
    ∀ outcome ∈ Program.outcomes frame programs machine,
      outcome.Satisfies
        (Scopes.AllReachable (·.isError = false) fun root ↦
          root = frame ∨ Outcome.HoldFrame (Program.outcomes frame programs machine) root)
        fun result ↦ ∀ value ∈ result, value.isError ∨ value.All (·.isError = false) := by
  have hframe : machine.scopes.Available (· = frame) frame := .inl (.root rfl)
  have houtcomes := Program.outcomes_satisfy
    (fun entry (_ : entry ∈ programs) ↦ Program.run_errorFree entry.1 entry.2 hframe)
    hstart.sealed
  have hheld (root : FrameId)
      (hroot : Outcome.HoldFrame (Program.outcomes frame programs machine) root) :
      machine.scopes.Available (· = frame) root := by
    obtain ⟨value, after, closure, hmem, hoccurs, rfl⟩ := hroot
    rcases (houtcomes _ hmem).2 value rfl with herror | hsound
    · -- An error has no part but itself.
      cases hoccurs <;> cases herror
    · exact (hsound.occurs hoccurs).1
  intro outcome hmem
  refine (houtcomes outcome hmem).mono (fun scopes hsealed ↦ ?_) fun result hresult value hvalue ↦
    (hresult value hvalue).imp_right fun hsound ↦ hsound.mono fun _ ↦ Value.IsSound.not_isError
  refine (hsealed.reachable ?_).mono fun _ ↦ Value.IsSound.not_isError
  rintro root (rfl | hroot)
  · exact hframe
  · exact hheld root hroot

/-- After functions with frames of their own, an array that would hold an error, a recursion without
an end, and a function as a result. -/
theorem errors_are_never_stored_after_failures :
    let machine := (runSource {}
      "let f = fn(x) \x7b fn() \x7b x \x7d \x7d; let g = f([1, \x7b2: f\x7d]);"
      topFrame Machine.start).machine
    let programs : List (Settings × Program) :=
      [({ verbosity := 3 }, (Program.ofSource "let a = [g, missing];").program),
        ({ depthLimit := 40 }, (Program.ofSource "let h = fn(x) \x7b h([x]) \x7d; h(g)").program),
        ({}, (Program.ofSource "let a = g()[1][2]; [a, f(g)]").program)]
    machine.scopes.AllReachable (·.isError = false) (· = topFrame) ∧
      ∀ outcome ∈ Program.outcomes topFrame programs machine,
        outcome.Satisfies
          (Scopes.AllReachable (·.isError = false) fun root ↦
            root = topFrame ∨ Outcome.HoldFrame (Program.outcomes topFrame programs machine) root)
          fun result ↦ ∀ value ∈ result, value.isError ∨ value.All (·.isError = false) := by
  intro machine programs
  have hbindings : machine.scopes.AllBindings (Value.All (·.isError = false)) := by decide +kernel
  exact ⟨hbindings.allReachable _,
    errors_are_never_stored topFrame programs machine (hbindings.allReachable _)⟩

end MonkeyLang
