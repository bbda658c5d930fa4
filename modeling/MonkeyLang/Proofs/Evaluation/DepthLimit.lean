import Mathlib.Tactic
import MonkeyLang.Proofs.Evaluation.ErrorFree
import MonkeyLang.Proofs.Evaluation.Room

/-!
# The limit on nested steps only cuts runs short

A run that may take more nested steps does what the one with fewer does, for as long as that one
goes on. So if the shorter run is not halted, the two are the same in every respect, and if it is,
what it has printed and traced is what the longer one begins with.

The relation `Run.CutsShort` says this of two runs. It is in lockstep, also where the steps that are
left are those for the text of a value or a tree, and a run that is halted at once cuts every run
short that only adds to what has been printed and traced, as all of them do; so it holds of the
evaluator for `low` steps against `low + more`, by `LockstepAt.add`.

That a program was halted shows in its result, because no other error is the one for too many nested
steps. This is where it matters that there is no error in what the program can reach.
-/

set_option autoImplicit false

namespace MonkeyLang

/-- What has been printed and traced in the first machine comes first in the second. -/
structure Machine.Precedes (before after : Machine) : Prop where
  output : before.output.toList <+: after.output.toList
  trace : before.trace.toList <+: after.trace.toList

namespace Machine

theorem Precedes.refl (machine : Machine) : machine.Precedes machine :=
  ⟨List.prefix_refl _, List.prefix_refl _⟩

theorem Precedes.trans {first second third : Machine} (h : first.Precedes second)
    (h' : second.Precedes third) : first.Precedes third :=
  ⟨h.output.trans h'.output, h.trace.trans h'.trace⟩

theorem precedes_noteLimit (settings : Settings) (machine : Machine) :
    machine.Precedes (machine.noteLimit settings) := by
  refine ⟨List.prefix_refl _, ?_⟩
  rw [trace_noteLimit]
  exact List.prefix_append _ _

end Machine

/-- The first outcome is the second, or the halt at some moment on the way to it; and the second
only adds to what had been printed and traced before. -/
structure Outcome.CutsShort {α : Type} (Q : α → Prop) (before : Machine)
    (short long : Outcome α) : Prop where
  gives : long.Satisfies (fun _ ↦ True) Q
  grows : before.Precedes long.machine
  agrees : short = long ∨ ∃ after, short = .halted .depth after ∧ after.Precedes long.machine

namespace Run

variable {α β : Type} {Q : α → Prop}

/-- The first run does what the second does, or is halted at some moment of it. -/
def CutsShort (Q : α → Prop) (short long : Run α) : Prop :=
  ∀ machine : Machine, (short machine).CutsShort Q machine (long machine)

/-- A run against itself. -/
theorem cutsShort_self {run : Run α}
    (hrun : ∀ machine : Machine, (run machine).Satisfies (fun _ ↦ True) Q ∧
      machine.Precedes (run machine).machine) : CutsShort Q run run :=
  fun machine ↦ ⟨(hrun machine).1, (hrun machine).2, .inl rfl⟩

theorem CutsShort.halt {short long : Run α} (h : CutsShort Q short long) :
    CutsShort Q (Run.halt .depth) long :=
  fun machine ↦ ⟨(h machine).gives, (h machine).grows, .inr ⟨machine, rfl, (h machine).grows⟩⟩

theorem cutsShort_halt (reason : Halt) : CutsShort Q (Run.halt reason) (Run.halt reason) :=
  cutsShort_self fun machine ↦ ⟨trivial, .refl machine⟩

theorem cutsShort_pure {found : α} (hfound : Q found) :
    CutsShort Q (pure found : Run α) (pure found) :=
  cutsShort_self fun machine ↦ ⟨⟨trivial, hfound⟩, .refl machine⟩

theorem CutsShort.bind {P : β → Prop} {first first' : Run β} {next next' : β → Run α}
    (hfirst : CutsShort P first first')
    (hnext : ∀ found, P found → CutsShort Q (next found) (next' found)) :
    CutsShort Q (first >>= next) (first' >>= next') := by
  intro machine
  obtain ⟨hgives, hgrows, hagrees⟩ := hfirst machine
  show (Run.bind first next machine).CutsShort Q machine (Run.bind first' next' machine)
  rw [Run.bind, Run.bind]
  -- The second run has either been halted in its first half or goes on from where that has ended.
  cases hlong : first' machine with
  | halted halt middle =>
    rw [hlong] at hgrows hagrees
    refine ⟨trivial, hgrows, ?_⟩
    rcases hagrees with heq | ⟨after, heq, hprecedes⟩
    · exact .inl (by rw [heq])
    · exact .inr ⟨after, by rw [heq], hprecedes⟩
  | done found middle =>
    rw [hlong] at hgives hgrows hagrees
    obtain ⟨hgives', hgrows', hagrees'⟩ := hnext found hgives.2 middle
    refine ⟨hgives', hgrows.trans hgrows', ?_⟩
    rcases hagrees with heq | ⟨after, heq, hprecedes⟩
    · rw [heq]
      exact hagrees'
    · exact .inr ⟨after, by rw [heq], hprecedes.trans hgrows'⟩

/-- A step that is halted where it stands or does what the other does. -/
theorem cutsShort_of_or {short long : Run α}
    (hshort : ∀ machine, short machine = .halted .depth machine ∨ short machine = long machine)
    (hlong : ∀ machine : Machine, (long machine).Satisfies (fun _ ↦ True) Q ∧
      machine.Precedes (long machine).machine) : CutsShort Q short long := by
  intro machine
  obtain ⟨hgives, hgrows⟩ := hlong machine
  refine ⟨hgives, hgrows, ?_⟩
  rcases hshort machine with hhalted | heq
  · exact .inr ⟨machine, hhalted, hgrows⟩
  · exact .inl heq

theorem cutsShort_print {room more : Room} (hle : Room.Le room more) (value : Value) :
    CutsShort (fun _ ↦ True) (print room value) (print more value) := by
  refine cutsShort_of_or (print_or_halted hle value) fun machine ↦ ?_
  rw [print]
  split
  · exact ⟨trivial, .refl machine⟩
  · refine ⟨⟨trivial, trivial⟩, ?_, List.prefix_refl _⟩
    show _ <+: (machine.output.push value.text).toList
    rw [Array.toList_push]
    exact List.prefix_append _ _

theorem cutsShort_note {room more : Room} {obstacle : Room → Option Halt}
    (hwidens : Halt.Widens obstacle) (hle : Room.Le room more) (settings : Settings) (level : Nat)
    (text : Unit → String) :
    CutsShort (fun _ ↦ True) (note settings level (fun _ ↦ obstacle room) text)
      (note settings level (fun _ ↦ obstacle more) text) := by
  refine cutsShort_of_or (note_or_halted hwidens hle settings level text) fun machine ↦ ?_
  rw [note]
  split_ifs
  · split
    · exact ⟨trivial, .refl machine⟩
    · refine ⟨⟨trivial, trivial⟩, List.prefix_refl _, ?_⟩
      show _ <+: (machine.trace.push ⟨level, text ()⟩).toList
      rw [Array.toList_push]
      exact List.prefix_append _ _
  · exact ⟨⟨trivial, trivial⟩, .refl machine⟩

end Run

namespace Evaluation

variable (settings : Settings)

theorem lockstep_cutsShort (low high : Nat) :
    Lockstep Domain.all (· ≤ ·) { settings with depthLimit := low }
      { settings with depthLimit := high } Run.CutsShort where
  builtins _ := rfl
  pure := Run.cutsShort_pure
  bind := Run.CutsShort.bind
  print hle _ := Run.cutsShort_print (Room.some_le_some hle) _
  openFrame _ := Run.cutsShort_self fun _ ↦
    ⟨⟨trivial, trivial⟩, List.prefix_refl _, List.prefix_refl _⟩
  setVariable _ _ := Run.cutsShort_self fun _ ↦
    ⟨⟨trivial, trivial⟩, List.prefix_refl _, List.prefix_refl _⟩
  getVariable _ _ := Run.cutsShort_self fun machine ↦ ⟨⟨trivial, fun _ _ ↦ trivial⟩, .refl machine⟩
  makeFunction _ _ := Run.cutsShort_self fun _ ↦
    ⟨⟨trivial, .inl trivial⟩, List.prefix_refl _, List.prefix_refl _⟩
  noteBinding _ _ hle :=
    Run.cutsShort_note (Halt.widens_beyond _) (Room.some_le_some hle) _ _ _
  noteCondition _ hle :=
    Run.cutsShort_note (Halt.widens_beyond _) (Room.some_le_some hle) _ _ _
  noteBuiltin _ _ hle :=
    Run.cutsShort_note (Halt.widens_beyond _) (Room.some_le_some hle) _ _ _
  noteCall _ hle _ :=
    Run.cutsShort_note ((Expr.widens_obstacle? _).within _) (Room.some_le_some hle) _ _ _
  noteStatement _ hle _ :=
    Run.cutsShort_note (widens_statementObstacle? _ _) (Room.some_le_some hle) _ _ _

/-- With no step allowed at all. -/
theorem lockstepAt_zero_cutsShort (low high more : Nat) :
    LockstepAt Domain.all { settings with depthLimit := low } { settings with depthLimit := high }
      Run.CutsShort 0 more := by
  have h := LockstepAt.same (lockstep_cutsShort settings low high) le_refl
    (Run.cutsShort_halt .depth) more
  constructor
  all_goals
    intros
    simp only [evaluate, evaluateEach, hashLiteral, conditional, call, execute, executeEach]
  · exact (h.evaluate ‹_› ‹_›).halt
  · exact (h.evaluateEach ‹_› ‹_›).halt
  · exact (h.hashLiteral ‹_› ‹_›).halt
  · exact (h.conditional ‹_› ‹_› ‹_› ‹_›).halt
  · exact (h.call ‹_› ‹_› ‹_›).halt
  · exact (h.execute ‹_› ‹_›).halt
  · exact (h.executeEach ‹_› ‹_›).halt

theorem programResult_cutsShort {low high : Nat} (hle : low ≤ high) (frame : FrameId)
    (statements : List Stmt) :
    Run.CutsShort Domain.all.GivesAny
      (programResult { settings with depthLimit := low } frame none statements)
      (programResult { settings with depthLimit := high } frame none statements) := by
  obtain ⟨more, rfl⟩ := Nat.exists_eq_add_of_le' hle
  have hlockstep := lockstep_cutsShort settings low (more + low)
  have hat := (lockstepAt_zero_cutsShort settings low (more + low) more).add hlockstep
    (fun _ ↦ Nat.add_le_add_right (Nat.zero_le more) _) low
  rw [Nat.zero_add] at hat
  exact hat.programResult hlockstep hle trivial
    (fun statement _ ↦ Stmt.every_of_forall (fun _ ↦ trivial) statement) Domain.givesAny_none

end Evaluation

/-- The machine of an ended program goes on from that of its statements. -/
theorem Outcome.precedes_concluded (settings : Settings) (outcome : Outcome (Option Value)) :
    outcome.machine.Precedes (outcome.concluded settings).machine := by
  unfold concluded
  split
  · exact Machine.precedes_noteLimit settings _
  · exact Machine.Precedes.refl _

/-- If the program keeps to the lower limit, a higher one changes nothing. If it does not, what it
has printed and traced up to there, the line about the limit apart, comes first under the higher
one. -/
theorem depth_limit_only_cuts_short (settings : Settings) (program : Program) (frame : FrameId)
    (machine : Machine) {low high : Nat} (hle : low ≤ high)
    (hstart : machine.scopes.AllReachable (·.isError = false) (· = frame)) :
    let short := program.run { settings with depthLimit := low } frame machine
    let long := program.run { settings with depthLimit := high } frame machine
    (short.isDepthExceeded = false → long = short) ∧
      (short.isDepthExceeded = true →
        short.machine.output.toList <+: long.machine.output.toList ∧
          ∃ shown, short.machine.trace.toList = shown ++ settings.limitEvents ∧
            shown <+: long.machine.trace.toList) := by
  intro short long
  have hagrees :=
    (Evaluation.programResult_cutsShort settings hle frame program.statements machine).agrees
  have hshort : short = _ := Program.run_eq_concluded _ program frame machine
  have hlong : long = _ := Program.run_eq_concluded _ program frame machine
  refine ⟨fun hkept ↦ ?_, fun hdeep ↦ ?_⟩
  · rcases hagrees with heq | ⟨after, heq, -⟩
    · rw [hlong, hshort, heq]
      rfl
    · rw [hshort, heq] at hkept
      cases hkept
  · obtain ⟨after, hafter⟩ := Program.exists_halted hstart hdeep
    have hprecedes : after.Precedes long.machine := by
      rw [hlong]
      refine .trans ?_ (Outcome.precedes_concluded _ _)
      rcases hagrees with heq | ⟨other, heq, hother⟩
      · rw [← heq, hafter]
        exact Machine.Precedes.refl after
      · obtain ⟨-, rfl⟩ := Outcome.halted.inj (hafter.symm.trans heq)
        exact hother
    rw [hshort, hafter]
    exact ⟨hprecedes.output, after.trace.toList, Machine.trace_noteLimit _ _, hprecedes.trace⟩

/-- A recursion that comes to its end within 60 nested steps and not within 30. -/
theorem depth_limit_only_cuts_short_of_recursion :
    let program := (Program.ofSource
      "let f = fn(x) \x7b puts(x); if (x < 3) \x7b f(x + 1) \x7d \x7d; f(0)").program
    let run (limit : Nat) :=
      program.run { verbosity := 3, depthLimit := limit } topFrame Machine.start
    ((run 60).isDepthExceeded = false ∧ run 200 = run 60) ∧
      (run 30).isDepthExceeded = true ∧
        (run 30).machine.output.toList <+: (run 60).machine.output.toList ∧
          ∃ shown, (run 30).machine.trace.toList = shown ++ [⟨1, "recursion limit reached"⟩] ∧
            shown <+: (run 60).machine.trace.toList := by
  intro program run
  have hkept : (run 60).isDepthExceeded = false := by decide +kernel
  have hdeep : (run 30).isDepthExceeded = true := by decide +kernel
  have hcut {low high : Nat} (hle : low ≤ high) :=
    depth_limit_only_cuts_short { verbosity := 3 } program topFrame Machine.start hle
      (Scopes.allReachable_start _ _)
  exact ⟨⟨hkept, (hcut (by decide)).1 hkept⟩, hdeep, (hcut (by decide)).2 hdeep⟩

end MonkeyLang
