import Mathlib.Tactic
import MonkeyLang.Evaluation
import MonkeyLang.Proofs.Program.Obstacles

/-!
# Printing and tracing with less room

The only steps of a machine that look at the room for nested steps are those that write a text. With
less room such a step is halted where it stands, or does what it does with more (`note_or_halted`,
`print_or_halted`). What is made of these steps may be halted later, with some of its effects done;
that a run does the same as another one or is halted for the lack of nested steps is `Run.ShortOf`.
-/

set_option autoImplicit false

namespace MonkeyLang

/-- Whether there were too many nested steps. -/
def Outcome.isTooDeep {α : Type} : Outcome α → Bool
  | .halted .depth _ => true
  | _ => false

theorem Outcome.isTooDeep_iff {α : Type} {outcome : Outcome α} :
    outcome.isTooDeep ↔ ∃ after, outcome = .halted .depth after := by
  rcases outcome with ⟨value, machine⟩ | ⟨reason, machine⟩
  · simp [isTooDeep]
  · cases reason <;> simp [isTooDeep]

namespace Run

variable {α β : Type} {room more : Room}

/-- The first run does what the second does, or is halted for the lack of nested steps. -/
def ShortOf (short long : Run α) : Prop :=
  ∀ machine : Machine,
    (∃ after, short machine = .halted .depth after) ∨ short machine = long machine

theorem ShortOf.refl (run : Run α) : run.ShortOf run :=
  fun _ ↦ .inr rfl

theorem ShortOf.bind {first first' : Run β} {next next' : β → Run α} (hfirst : first.ShortOf first')
    (hnext : ∀ found, (next found).ShortOf (next' found)) :
    (first >>= next).ShortOf (first' >>= next') := by
  intro machine
  show (∃ after, Run.bind first next machine = .halted .depth after) ∨
    Run.bind first next machine = Run.bind first' next' machine
  rw [Run.bind, Run.bind]
  rcases hfirst machine with ⟨after, hhalted⟩ | heq
  · exact .inl ⟨after, by rw [hhalted]⟩
  · rw [← heq]
    cases first machine with
    | done found after => exact hnext found after
    | halted reason after => exact .inr rfl

theorem note_or_halted {obstacle : Room → Option Halt} (hwidens : Halt.Widens obstacle)
    (hle : Room.Le room more) (settings : Settings) (level : Nat) (text : Unit → String)
    (machine : Machine) :
    note settings level (fun _ ↦ obstacle room) text machine = .halted .depth machine ∨
      note settings level (fun _ ↦ obstacle room) text machine =
        note settings level (fun _ ↦ obstacle more) text machine := by
  rw [note, note]
  split_ifs with hlevel
  · rcases hwidens hle with hdepth | heq
    · exact .inl (by rw [hdepth])
    · exact .inr (by rw [heq])
  · exact .inr rfl

theorem print_or_halted (hle : Room.Le room more) (value : Value) (machine : Machine) :
    print room value machine = .halted .depth machine ∨
      print room value machine = print more value machine := by
  rw [print, print]
  rcases value.widens_obstacle?.within Steps.alone hle with hdepth | heq
  · exact .inl (by rw [hdepth])
  · exact .inr (by rw [heq])

theorem shortOf_note {obstacle : Room → Option Halt} (hwidens : Halt.Widens obstacle)
    (hle : Room.Le room more) (settings : Settings) (level : Nat) (text : Unit → String) :
    (note settings level (fun _ ↦ obstacle room) text).ShortOf
      (note settings level (fun _ ↦ obstacle more) text) :=
  fun machine ↦ (note_or_halted hwidens hle settings level text machine).imp_left fun hhalted ↦
    ⟨machine, hhalted⟩

end Run

namespace Builtin

open Run

variable {room more : Room}

theorem shortOf_printEach (hle : Room.Le room more) (values : List Value) :
    (printEach room values).ShortOf (printEach more values) := by
  induction values with
  | nil => exact .refl _
  | cons value values ih =>
    rw [printEach, printEach]
    refine .bind (fun machine ↦ ?_) fun _ ↦ ih
    exact (print_or_halted hle value machine).imp_left fun hhalted ↦ ⟨machine, hhalted⟩

theorem shortOf_call (hle : Room.Le room more) (builtin : Builtin) (arguments : List Value) :
    (builtin.call room arguments).ShortOf (builtin.call more arguments) := by
  have hresult : (builtin.result room arguments).ShortOf (builtin.result more arguments) := by
    unfold result
    split
    case h_7 => exact .bind (shortOf_printEach hle _) fun _ ↦ .refl _
    all_goals exact .refl _
  rw [call, call]
  split
  · split_ifs
    · exact hresult
    · exact .refl _
  · exact hresult

end Builtin

theorem Evaluation.widens_statementObstacle? (statement : Stmt) (result : Option Value) :
    Halt.Widens (statementObstacle? statement result) :=
  (statement.widens_obstacle?.within _).orElse (Halt.widens_beyond _)

end MonkeyLang
