import MonkeyLang.Proofs.Evaluation.Direct
import MonkeyLang.Proofs.Evaluation.Placement
import MonkeyLang.Proofs.Evaluation.Room

/-!
# Passing results up is leaving at once

The evaluator passes errors and returned values up as results, and each place that takes a result
looks at it; in direct style both leave at once. This module relates the two. A run *threads* a
direct one if from every machine with placed variables it comes to the same machine, and its value
is the one that the direct run ends with, or the one that stands for the exit.

The rules below say how this is kept when runs are put together, one rule for each way of looking at
a result, and one for each loop of the evaluator, by induction on the list that it runs over. What
makes them work is that an ordinary value is placed, so that no test for an error or a returned
value is ever true of it, and this needs all variables to be placed as well. The evaluator itself is
then an induction on the number of nested steps that are still allowed.
-/

set_option autoImplicit false

namespace MonkeyLang

variable {α β γ δ : Type}

open Value

/-! ### Runs that pass up what another one leaves with -/

instance : LawfulMonad Run :=
  .mk' _
    (fun run ↦ funext fun machine ↦ by
      show Run.bind run (fun value ↦ Run.pure value) machine = run machine
      rw [Run.bind]
      cases run machine <;> rfl)
    (fun _ _ ↦ rfl)
    (fun first second third ↦ funext fun machine ↦ by
      show Run.bind (Run.bind first second) third machine =
        Run.bind first (fun value ↦ Run.bind (second value) third) machine
      simp only [Run.bind]
      cases first machine <;> rfl)

theorem Direct.callResult_eq (body : Direct (Option Value)) :
    callResult body = ExceptT.mk (body.run >>= fun ended ↦ match ended with
      | .ok result => (pure (result.getD .null) : Direct Value)
      | .error (.returned value) => (pure value : Direct Value)
      | .error (.failed failure) => (throw (.failed failure) : Direct Value)) := by
  show (body.run >>= ExceptT.bindCont _) >>= _ = body.run >>= _
  rw [bind_assoc]
  refine bind_congr fun ended ↦ ?_
  rcases ended with (value | failure) | result
  all_goals rfl

/-- The outcome of a run that passes results up, against that of one that leaves: the machine is the
same, and so is the value, or the first has for its value what the second has left with. Nothing is
said once there were too many nested steps. -/
def Outcome.Agrees (same : α → β → Prop) (left : α → Exit → Prop) :
    Outcome α → Outcome (Except Exit β) → Prop
  | .halted .depth _, _ => True
  | .halted (.nonText literal) machine, direct => direct = .halted (.nonText literal) machine
  | .done value machine, .done (.ok found) after =>
    after = machine ∧ Placed machine.scopes ∧ same value found
  | .done value machine, .done (.error exit) after =>
    after = machine ∧ Placed machine.scopes ∧ left value exit
  | .done _ _, .halted _ _ => False

def Run.Threads (same : α → β → Prop) (left : α → Exit → Prop) (run : Run α)
    (direct : Direct β) : Prop :=
  ∀ machine : Machine, Placed machine.scopes →
    (run machine).Agrees same left (direct.run machine)

/-- The value that an exit is passed up as. Only where a return statement occurs may it be a wrapped
one. -/
inductive Exit.Passed (returns : Bool) : Value → Exit → Prop
  | failed (failure : Failure) : Passed returns (.error failure) (.failed failure)
  | returned (hreturns : returns) (value : Value) (hplaced : value.All IsPlaced) :
    Passed returns (.returned value) (.returned value)

theorem Exit.Passed.mono {returns returns' : Bool} {value : Value} {exit : Exit}
    (h : Exit.Passed returns value exit) (hle : returns → returns') :
    Exit.Passed returns' value exit := by
  cases h with
  | failed failure => exact .failed failure
  | returned hreturns value hplaced => exact .returned (hle hreturns) value hplaced

/-- A value that no exit is passed up as. -/
abbrev Value.Same (value found : Value) : Prop :=
  value = found ∧ found.All IsPlaced

/-- The value of an expression. -/
abbrev Run.Evaluates (returns : Bool) : Run Value → Direct Value → Prop :=
  Run.Threads Value.Same (Exit.Passed returns)

/-- The result of a statement, which may give none. -/
abbrev Run.Executes (returns : Bool) : Run (Option Value) → Direct (Option Value) → Prop :=
  Run.Threads (fun result found ↦ result = found ∧ ∀ value ∈ found, value.All IsPlaced)
    fun result exit ↦ ∃ value, result = some value ∧ Exit.Passed returns value exit

namespace Run

variable {same : α → β → Prop} {left : α → Exit → Prop}
  {same' : γ → δ → Prop} {left' : γ → Exit → Prop}

theorem threads_halt (direct : Direct β) : (halt .depth : Run α).Threads same left direct :=
  fun _ _ ↦ trivial

theorem threads_pure {value : α} {found : β} (hsame : same value found) :
    (pure value : Run α).Threads same left (pure found) :=
  fun _ hmachine ↦ ⟨rfl, hmachine, hsame⟩

theorem threads_throw {value : α} {exit : Exit} (hleft : left value exit) :
    (pure value : Run α).Threads same left (throw exit) :=
  fun _ hmachine ↦ ⟨rfl, hmachine, hleft⟩

theorem Threads.mono {run : Run α} {direct : Direct β} {same' : α → β → Prop}
    {left' : α → Exit → Prop} (h : run.Threads same left direct)
    (hsame : ∀ value found, same value found → same' value found)
    (hleft : ∀ value exit, left value exit → left' value exit) :
    run.Threads same' left' direct := by
  intro machine hmachine
  have hagrees := h machine hmachine
  cases houtcome : run machine with
  | halted halt after =>
    rw [houtcome] at hagrees
    cases halt <;> exact hagrees
  | done value after =>
    rw [houtcome] at hagrees
    cases hdirect : direct.run machine with
    | halted halt after' =>
      rw [hdirect] at hagrees
      exact hagrees
    | done ended after' =>
      rw [hdirect] at hagrees
      cases ended with
      | ok found => exact ⟨hagrees.1, hagrees.2.1, hsame value found hagrees.2.2⟩
      | error exit => exact ⟨hagrees.1, hagrees.2.1, hleft value exit hagrees.2.2⟩

/-- Both go on behind each way in which the direct run may end. -/
theorem Threads.handle {first : Run α} {direct : Direct β} {next : α → Run γ}
    {other : Except Exit β → Direct δ} (hfirst : first.Threads same left direct)
    (hsame : ∀ value found, same value found →
      (next value).Threads same' left' (other (.ok found)))
    (hleft : ∀ value exit, left value exit →
      (next value).Threads same' left' (other (.error exit))) :
    (first >>= next).Threads same' left' (ExceptT.mk (direct.run >>= other)) := by
  intro machine hmachine
  have hagrees := hfirst machine hmachine
  show (Run.bind first next machine).Agrees same' left' (Run.bind direct.run other machine)
  rw [Run.bind, Run.bind]
  cases houtcome : first machine with
  | halted halt after =>
    rw [houtcome] at hagrees
    cases halt with
    | depth => trivial
    | nonText literal =>
      dsimp only [Outcome.Agrees] at hagrees ⊢
      rw [hagrees]
  | done value after =>
    rw [houtcome] at hagrees
    cases hdirect : direct.run machine with
    | halted halt after' =>
      rw [hdirect] at hagrees
      exact hagrees.elim
    | done ended after' =>
      rw [hdirect] at hagrees
      cases ended with
      | ok found =>
        obtain ⟨rfl, hplaced, hvalue⟩ := hagrees
        exact hsame value found hvalue _ hplaced
      | error exit =>
        obtain ⟨rfl, hplaced, hvalue⟩ := hagrees
        exact hleft value exit hvalue _ hplaced

/-- Behind what is the same both go on, and what has been left with is passed up. -/
theorem Threads.bind {first : Run α} {direct : Direct β} {next : α → Run γ} {other : β → Direct δ}
    (hfirst : first.Threads same left direct)
    (hnext : ∀ value found, same value found → (next value).Threads same' left' (other found))
    (hleft : ∀ value exit, left value exit → ∃ passed, next value = pure passed ∧
      left' passed exit) :
    (first >>= next).Threads same' left' (direct >>= other) := by
  show (first >>= next).Threads same' left'
    (ExceptT.mk (direct.run >>= (ExceptT.bindCont other : Except Exit β → Direct δ)))
  refine Threads.handle hfirst (fun value found hvalue ↦ ?_) fun value exit hvalue ↦ ?_
  · exact hnext value found hvalue
  obtain ⟨passed, hpure, hpassed⟩ := hleft value exit hvalue
  rw [hpure]
  exact threads_throw hpassed

/-- Behind a step that leaves nothing and is the same in both, but for the nested steps that it
may take. -/
theorem Threads.bind_run {first first' : Run α} {property : α → Prop} {next : α → Run γ}
    {other : α → Direct δ} (hfirst : first.Ensures Placed property) (hshort : first.ShortOf first')
    (hnext : ∀ value, property value → (next value).Threads same' left' (other value)) :
    (first >>= next).Threads same' left' (ExceptT.mk (first' >>= other)) := by
  intro machine hmachine
  have hsatisfies := hfirst machine hmachine
  show (Run.bind first next machine).Agrees same' left' (Run.bind first' other machine)
  rw [Run.bind, Run.bind]
  rcases hshort machine with ⟨after, hhalted⟩ | heq
  · rw [hhalted]
    trivial
  rw [← heq]
  cases houtcome : first machine with
  | done value after =>
    rw [houtcome] at hsatisfies
    exact hnext value hsatisfies.2 after hsatisfies.1
  | halted halt after =>
    cases halt with
    | depth => trivial
    | nonText literal => rfl

theorem Threads.bind_lift {first first' : Run α} {property : α → Prop} {next : α → Run γ}
    {other : α → Direct δ} (hfirst : first.Ensures Placed property) (hshort : first.ShortOf first')
    (hnext : ∀ value, property value → (next value).Threads same' left' (other value)) :
    (first >>= next).Threads same' left' (liftM first' >>= other) := by
  have hlift : liftM first' >>= other = ExceptT.mk (first' >>= other) := by
    show (Except.ok <$> first') >>= ExceptT.bindCont other = first' >>= other
    rw [map_eq_pure_bind, bind_assoc]
    rfl
  rw [hlift]
  exact bind_run hfirst hshort hnext

theorem threads_lift {run : Run α} {property : α → Prop} (hrun : run.Ensures Placed property) :
    run.Threads (fun value found ↦ value = found ∧ property found) left (liftM run) := by
  have hbind : (run >>= pure).Threads (fun value found ↦ value = found ∧ property found) left
      (liftM run >>= pure) :=
    .bind_lift hrun (.refl run) fun value hvalue ↦ threads_pure ⟨rfl, hvalue⟩
  rwa [bind_pure, bind_pure] at hbind

/-- Behind a line of the trace, for which there is less room or more. -/
theorem Threads.bind_note {obstacle : Room → Option Halt} (hwidens : Halt.Widens obstacle)
    {settings : Settings} {level : Nat} {room : Room} {text : Unit → String} {next : Unit → Run γ}
    {other : Unit → Direct δ} (hnext : (next ()).Threads same' left' (other ())) :
    (note settings level (fun _ ↦ obstacle room) text >>= next).Threads same' left'
      (liftM (note settings level (fun _ ↦ obstacle none) text) >>= other) :=
  bind_lift (ensures_note _ _ _ _) (shortOf_note hwidens (Room.le_none room) _ _ _)
    fun _ _ ↦ hnext

/-- A run that gives what is made of the direct one's end is the same, if it is not cut short. -/
theorem Threads.eq_of_not_isTooDeep {run : Run α} {direct : Direct β} {result : Except Exit β → α}
    (h : run.Threads (fun value found ↦ value = result (.ok found))
      (fun value exit ↦ value = result (.error exit)) direct)
    {machine : Machine} (hmachine : Placed machine.scopes)
    (hdepth : (run machine).isTooDeep = false) :
    run machine = (do return result (← direct.run) : Run α) machine := by
  have hagrees := h machine hmachine
  show run machine = Run.bind direct.run (fun ended ↦ Run.pure (result ended)) machine
  rw [Run.bind]
  cases houtcome : run machine with
  | halted halt after =>
    rw [houtcome] at hagrees hdepth
    cases halt with
    | depth => cases hdepth
    | nonText literal =>
      dsimp only [Outcome.Agrees] at hagrees
      rw [hagrees]
  | done value after =>
    rw [houtcome] at hagrees
    cases hdirect : direct.run machine with
    | halted halt after' =>
      rw [hdirect] at hagrees
      exact hagrees.elim
    | done ended after' =>
      rw [hdirect] at hagrees
      rcases ended with exit | found
      all_goals
        obtain ⟨rfl, -, rfl⟩ := hagrees
        rfl

/-- Behind a value that is looked at for errors. -/
theorem Evaluates.bind {first : Run Value} {direct : Direct Value} {next : Value → Run γ}
    {other : Value → Direct δ} (hfirst : first.Evaluates false direct)
    (hnext : ∀ value, value.All IsPlaced → (next value).Threads same' left' (other value))
    (hfailed : ∀ failure, ∃ passed, next (.error failure) = pure passed ∧
      left' passed (.failed failure)) :
    (first >>= next).Threads same' left' (direct >>= other) := by
  refine Threads.bind hfirst ?_ ?_
  · rintro value found ⟨rfl, hplaced⟩
    exact hnext value hplaced
  · rintro value exit (failure | ⟨hreturns, inner, -⟩)
    · exact hfailed failure
    · cases hreturns

theorem Evaluates.mono {returns returns' : Bool} {run : Run Value} {direct : Direct Value}
    (h : run.Evaluates returns direct) (hle : returns → returns') :
    run.Evaluates returns' direct :=
  Threads.mono h (fun _ _ hsame ↦ hsame) fun _ _ hpassed ↦ hpassed.mono hle

theorem Executes.mono {returns returns' : Bool} {run : Run (Option Value)}
    {direct : Direct (Option Value)} (h : run.Executes returns direct) (hle : returns → returns') :
    run.Executes returns' direct := by
  refine Threads.mono h (fun _ _ hsame ↦ hsame) ?_
  rintro result exit ⟨value, rfl, hpassed⟩
  exact ⟨value, rfl, hpassed.mono hle⟩

theorem Evaluates.andThen {returns : Bool} {first : Run Value} {direct : Direct Value}
    {next : Value → Run Value} {other : Value → Direct Value}
    (hfirst : first.Evaluates false direct)
    (hnext : ∀ value, value.All IsPlaced → (next value).Evaluates returns (other value)) :
    (first.andThen next).Evaluates returns (direct >>= other) := by
  rw [Run.andThen_eq_bind]
  refine hfirst.bind (fun value hplaced ↦ ?_) fun failure ↦ ⟨_, rfl, .failed failure⟩
  cases value with
  | error failure => exact hplaced.self.elim
  | _ => exact hnext _ hplaced

/-- A value that is placed or an error is raised if it is an error. -/
theorem evaluates_raise {value : Value}
    (hvalue : value.All IsPlaced ∨ ∃ failure, value = .error failure) :
    (pure value : Run Value).Evaluates false (Direct.raise value) := by
  rcases hvalue with hplaced | ⟨failure, rfl⟩
  · have hraise : Direct.raise value = pure value := by
      rw [Direct.raise]
      rintro failure rfl
      exact hplaced.self
    rw [hraise]
    exact threads_pure ⟨rfl, hplaced⟩
  · exact threads_throw (.failed failure)

/-- The end of a body: a return ends here, an error goes on. -/
theorem Executes.callResult {returns : Bool} {body : Run (Option Value)}
    {direct : Direct (Option Value)} (h : body.Executes returns direct) :
    (do return Evaluation.callResult (← body) : Run Value).Evaluates false
      (Direct.callResult direct) := by
  rw [Direct.callResult_eq]
  refine Threads.handle h ?_ ?_
  · rintro result _ ⟨rfl, hplaced⟩
    refine threads_pure ⟨?_, ?_⟩
    · unfold Evaluation.callResult
      split
      · exact (hplaced _ rfl).self.elim
      · rfl
    · cases result with
      | none => exact all_of_isPlain rfl trivial
      | some value => exact hplaced value rfl
  · rintro _ exit ⟨value, rfl, hpassed⟩
    cases hpassed with
    | failed failure => exact threads_throw (.failed failure)
    | returned hreturns inner hinner => exact threads_pure ⟨rfl, hinner⟩

end Run

/-! ### Loops -/

namespace Evaluation

open Run

theorem threads_values {threaded : α → Run Value} {direct : α → Direct Value} {items : List α}
    (hitems : ∀ item ∈ items, (threaded item).Evaluates false (direct item)) :
    (values threaded items).Threads
      (fun result found ↦ result = .ok found ∧ ∀ value ∈ found, value.All IsPlaced)
      (fun result exit ↦ ∃ failure, result = .error failure ∧ exit = .failed failure)
      (items.mapM direct) := by
  induction items with
  | nil => exact threads_pure ⟨rfl, List.forall_mem_nil _⟩
  | cons item rest ih =>
    rw [values, List.mapM_cons]
    refine (hitems item (.head _)).bind (fun value hvalue ↦ ?_) fun failure ↦
      ⟨_, rfl, failure, rfl, rfl⟩
    split
    · exact hvalue.self.elim
    · refine .bind (ih fun next hnext ↦ hitems next (.tail _ hnext)) ?_ ?_
      · rintro result found ⟨rfl, hfound⟩
        exact threads_pure ⟨rfl, List.forall_mem_cons.mpr ⟨hvalue, hfound⟩⟩
      · rintro result exit ⟨failure, rfl, rfl⟩
        exact ⟨_, rfl, failure, rfl, rfl⟩

theorem threads_bindArguments {threaded : α → Run Value} {direct : α → Direct Value}
    {frame : FrameId} {parameters : List Identifier} {arguments : List α}
    (harguments : ∀ argument ∈ arguments, (threaded argument).Evaluates false (direct argument)) :
    (bindArguments threaded frame parameters arguments).Threads
      (fun result _ ↦ result = none)
      (fun result exit ↦ ∃ failure, result = some failure ∧ exit = .failed failure)
      ((parameters.zip arguments).forM fun (pair : Identifier × α) ↦ do
        let value ← direct pair.2
        Run.setVariable frame pair.1.value value) := by
  induction arguments generalizing parameters with
  | nil =>
    rw [List.zip_nil_right]
    cases parameters with
    | nil => exact threads_pure rfl
    | cons parameter parameters => exact threads_pure rfl
  | cons argument rest ih =>
    cases parameters with
    | nil => exact threads_pure rfl
    | cons parameter parameters =>
      rw [bindArguments, List.zip_cons_cons, List.forM, bind_assoc]
      refine (harguments argument (.head _)).bind (fun value hvalue ↦ ?_) fun failure ↦
        ⟨_, rfl, failure, rfl, rfl⟩
      split
      · exact hvalue.self.elim
      · refine .bind_lift (ensures_setVariable fun scopes hscopes ↦
          hscopes.set frame parameter.value hvalue) (.refl _) fun _ _ ↦ ?_
        exact ih fun next hnext ↦ harguments next (.tail _ hnext)

theorem threads_hashPairs {threaded : α → Run Value} {direct : α → Direct Value}
    {pairs : List (α × α)} {done : List (Key × Value)}
    (hpairs : ∀ key value, (key, value) ∈ pairs →
      (threaded key).Evaluates false (direct key) ∧ (threaded value).Evaluates false (direct value))
    (hdone : ∀ entry ∈ done, entry.2.All IsPlaced) :
    (hashPairs threaded pairs done).Evaluates false (do
      let entries ← pairs.foldlM (fun done (pair : α × α) ↦ do
        let key ← direct pair.1
        match key.key? with
        | none => throw (.failed ⟨.invalidHashKey, "type: " ++ key.typeName⟩)
        | some found =>
          let value ← direct pair.2
          return Entries.put found value done) done
      return .hash entries) := by
  induction pairs generalizing done with
  | nil => exact threads_pure ⟨rfl, placed_hash hdone⟩
  | cons pair rest ih =>
    obtain ⟨key, value⟩ := pair
    have hpair := hpairs key value (.head _)
    rw [hashPairs, List.foldlM_cons, bind_assoc, bind_assoc]
    refine hpair.1.andThen fun k _ ↦ ?_
    cases hkey : k.key? with
    | none => exact threads_throw (.failed _)
    | some found =>
      dsimp only
      rw [bind_assoc]
      refine hpair.2.andThen fun v hv ↦ ?_
      rw [pure_bind]
      refine ih (fun k v hmem ↦ hpairs k v (.tail _ hmem)) fun entry hentry ↦ ?_
      rcases Entries.mem_put hentry with rfl | hentry
      · exact hv
      · exact hdone entry hentry

theorem executes_runEach {returns : Bool} {threaded : α → Run (Option Value)}
    {direct : α → Direct (Option Value)} {statements : List α} {result : Option Value}
    (hstatements : ∀ statement ∈ statements,
      (threaded statement).Executes returns (direct statement))
    (hresult : ∀ value ∈ result, value.All IsPlaced) :
    (runEach threaded result statements).Executes returns
      (statements.foldlM (fun _ statement ↦ direct statement) result) := by
  induction statements generalizing result with
  | nil => exact threads_pure ⟨rfl, hresult⟩
  | cons statement rest ih =>
    rw [runEach, List.foldlM_cons]
    refine .bind (hstatements statement (.head _)) ?_ ?_
    · rintro found _ ⟨rfl, hfound⟩
      split
      · exact (hfound _ rfl).self.elim
      · exact (hfound _ rfl).self.elim
      · exact ih (fun next hnext ↦ hstatements next (.tail _ hnext)) hfound
    · rintro _ exit ⟨value, rfl, hpassed⟩
      cases hpassed with
      | failed failure => exact ⟨_, rfl, _, rfl, .failed failure⟩
      | returned hreturns inner hinner => exact ⟨_, rfl, _, rfl, .returned hreturns inner hinner⟩

/-! ### The evaluator -/

/-- What the evaluator does with placed trees when `depth` nested steps are allowed. -/
structure ThreadsAt (settings : Settings) (depth : Nat) : Prop where
  evaluate : ∀ {frame : FrameId} {fuel : Nat} {whole : Bool} {expression : Expr}, depth ≤ fuel →
    expression.placed whole →
      (evaluate settings depth expression frame).Evaluates expression.hasReturn
        (Direct.evaluate settings fuel expression frame)
  execute : ∀ {frame : FrameId} {fuel : Nat} {statement : Stmt}, depth ≤ fuel →
    statement.placed →
      (execute settings depth statement frame).Executes statement.hasReturn
        (Direct.execute settings fuel statement frame)

namespace ThreadsAt

variable {settings : Settings} {depth fuel : Nat} {frame : FrameId}

/-- An expression inside another one. -/
theorem evaluate_inner (h : ThreadsAt settings depth) (hfuel : depth ≤ fuel) {expression : Expr}
    (hplaced : expression.placed false) :
    (Evaluation.evaluate settings depth expression frame).Evaluates false
      (Direct.evaluate settings fuel expression frame) := by
  have hevaluate : (Evaluation.evaluate settings depth expression frame).Evaluates
      expression.hasReturn (Direct.evaluate settings fuel expression frame) :=
    h.evaluate hfuel hplaced
  rwa [expression.hasReturn_eq_false hplaced] at hevaluate

/-- A block whose result is the value of a condition. -/
theorem execute_block (h : ThreadsAt settings depth) (hfuel : depth ≤ fuel) {block : Block}
    (hplaced : block.placed) {returns : Bool} (hreturns : block.hasReturn → returns) :
    (do return orNull (← Evaluation.execute settings depth (.block block) frame) :
      Run Value).Evaluates returns
        (do return (← Direct.execute settings fuel (.block block) frame).getD .null) := by
  have hexecute : (Evaluation.execute settings depth (.block block) frame).Executes
      (Stmt.block block).hasReturn (Direct.execute settings fuel (.block block) frame) :=
    h.execute hfuel (by rwa [Stmt.placed])
  rw [Stmt.hasReturn] at hexecute
  refine Threads.bind (hexecute.mono hreturns) ?_ ?_
  · rintro result _ ⟨rfl, hresult⟩
    refine threads_pure ⟨rfl, ?_⟩
    cases result with
    | none => exact all_of_isPlain rfl trivial
    | some value => exact hresult value rfl
  · rintro _ exit ⟨value, rfl, hpassed⟩
    exact ⟨value, rfl, hpassed⟩

theorem evaluateEach (h : ∀ d < depth, ThreadsAt settings d) (hfuel : depth ≤ fuel)
    {expressions : List Expr} (hplaced : Expr.placedEach expressions) :
    (Evaluation.evaluateEach settings depth expressions frame).Threads
      (fun result found ↦ result = .ok found ∧ ∀ value ∈ found, value.All IsPlaced)
      (fun result exit ↦ ∃ failure, result = .error failure ∧ exit = .failed failure)
      (expressions.mapM fun expression ↦ Direct.evaluate settings fuel expression frame) := by
  cases depth with
  | zero =>
    rw [Evaluation.evaluateEach]
    exact threads_halt _
  | succ depth =>
    rw [Evaluation.evaluateEach]
    refine threads_values fun expression hmem ↦ ?_
    exact (h depth depth.lt_succ_self).evaluate_inner (by omega) (Expr.placed_of_mem hplaced hmem)

theorem conditional (h : ∀ d < depth, ThreadsAt settings d) (hfuel : depth ≤ fuel)
    {condition : Expr} {consequence : Block} {alternative : Option Block} {returns : Bool}
    (hcondition : condition.placed false) (hconsequence : consequence.placed)
    (halternative : ∀ block ∈ alternative, block.placed)
    (hreturns : consequence.hasReturn → returns)
    (hreturns' : ∀ block ∈ alternative, block.hasReturn → returns) :
    (Evaluation.conditional settings depth condition consequence alternative frame).Evaluates
      returns (do
        let value ← Direct.evaluate settings fuel condition frame
        noteCondition settings none value
        if value.truthy then
          return (← Direct.execute settings fuel (.block consequence) frame).getD .null
        else
          match alternative with
          | some block =>
            return (← Direct.execute settings fuel (.block block) frame).getD .null
          | none => return .null) := by
  cases depth with
  | zero =>
    rw [Evaluation.conditional]
    exact threads_halt _
  | succ depth =>
    have hd := h depth depth.lt_succ_self
    have hle : depth ≤ fuel := by omega
    rw [Evaluation.conditional.eq_def]
    refine .andThen (hd.evaluate_inner hle hcondition) fun value hvalue ↦ ?_
    refine .bind_note (Halt.widens_beyond _) ?_
    by_cases htruthy : value.truthy
    · rw [if_pos htruthy, if_pos htruthy]
      exact hd.execute_block hle hconsequence hreturns
    · rw [if_neg htruthy, if_neg htruthy]
      cases alternative with
      | none => exact threads_pure ⟨rfl, all_of_isPlain rfl trivial⟩
      | some block => exact hd.execute_block hle (halternative block rfl) (hreturns' block rfl)

theorem call (h : ∀ d < depth, ThreadsAt settings d) (hfuel : depth ≤ fuel) {callee : Expr}
    {arguments : List Expr} (hcallee : callee.placed false)
    (harguments : Expr.placedEach arguments) :
    (Evaluation.call settings depth callee arguments frame).Evaluates false (do
      match ← Direct.evaluate settings fuel callee frame with
      | .function closure =>
        let inner ← Run.openFrame closure.frame
        (closure.parameters.zip arguments).forM fun (pair : Identifier × Expr) ↦ do
          let value ← Direct.evaluate settings fuel pair.2 frame
          Run.setVariable inner pair.1.value value
        noteCall settings none callee arguments.length
        Direct.callResult (Direct.execute settings fuel (.block closure.body) inner)
      | .builtin known =>
        let values ← arguments.mapM fun argument ↦ Direct.evaluate settings fuel argument frame
        noteBuiltin settings none known values
        Direct.raise (← known.call none values)
      | value => throw (.failed ⟨.callNonFunction, value.typeName⟩)) := by
  cases depth with
  | zero =>
    rw [Evaluation.call]
    exact threads_halt _
  | succ depth =>
    have hd := h depth depth.lt_succ_self
    have hle : depth ≤ fuel := by omega
    rw [Evaluation.call]
    refine .andThen (hd.evaluate_inner hle hcallee) fun value hvalue ↦ ?_
    cases value with
    | function closure =>
      have hbody : (Stmt.block closure.body).placed := by
        rw [Stmt.placed]
        exact all_function_iff.mp hvalue
      have hopen : (openFrame closure.frame).Ensures Placed fun _ ↦ True :=
        ensures_openFrame fun scopes hscopes ↦ ⟨hscopes.newFrame _, trivial⟩
      refine .bind_lift hopen (.refl _) fun inner _ ↦ ?_
      refine .bind (threads_bindArguments fun argument hmem ↦
        hd.evaluate_inner hle (Expr.placed_of_mem harguments hmem)) ?_ ?_
      · rintro _ _ rfl
        refine .bind_note (callee.widens_obstacle?.within _) ?_
        exact Executes.callResult (hd.execute hle hbody)
      · rintro _ _ ⟨failure, rfl, rfl⟩
        exact ⟨_, rfl, .failed failure⟩
    | builtin known =>
      refine Threads.bind (evaluateEach (fun d hlt ↦ h d (by omega)) hle harguments) ?_ ?_
      · rintro _ values ⟨rfl, hvalues⟩
        refine .bind_note (Halt.widens_beyond _) ?_
        have hcall : (known.call (some depth) values).Ensures Placed fun result ↦
            result.All IsPlaced ∨ ∃ failure, result = .error failure :=
          known.ensures_call_or_error hvalues (fun _ _ ↦ all_of_isPlain rfl trivial)
            (all_of_isPlain rfl trivial) fun _ ↦ placed_array_iff
        have hraise := Threads.bind_lift hcall (known.shortOf_call (Room.le_none _) values)
          fun result hresult ↦ evaluates_raise hresult
        rwa [bind_pure] at hraise
      · rintro _ _ ⟨failure, rfl, rfl⟩
        exact ⟨_, rfl, .failed failure⟩
    | _ => exact threads_throw (.failed _)

theorem identifier (name : String) :
    (Evaluation.identifier settings name frame).Evaluates false
      (Direct.identifier settings name frame) := by
  have hget : (getVariable frame name).Ensures Placed fun found ↦
      ∀ value ∈ found, value.All IsPlaced :=
    ensures_getVariable fun scopes hscopes value hvalue ↦ hscopes.get? hvalue
  rw [Evaluation.identifier, Direct.identifier]
  refine .bind_lift hget (.refl _) fun found hfound ↦ ?_
  cases found with
  | some value => exact threads_pure ⟨rfl, hfound value rfl⟩
  | none =>
    dsimp only
    cases Entries.get? settings.builtins name with
    | some known => exact threads_pure ⟨rfl, all_of_isPlain rfl trivial⟩
    | none => exact threads_throw (.failed _)

theorem hashLiteral (h : ∀ d < depth, ThreadsAt settings d) (hfuel : depth ≤ fuel)
    {pairs : List (Expr × Expr)} (hplaced : Expr.placedPairs pairs) :
    (Evaluation.hashLiteral settings depth pairs frame).Evaluates false (do
      let entries ← pairs.foldlM (fun done (pair : Expr × Expr) ↦ do
        let key ← Direct.evaluate settings fuel pair.1 frame
        match key.key? with
        | none => throw (.failed ⟨.invalidHashKey, "type: " ++ key.typeName⟩)
        | some found =>
          let value ← Direct.evaluate settings fuel pair.2 frame
          return Entries.put found value done) []
      return .hash entries) := by
  cases depth with
  | zero =>
    rw [Evaluation.hashLiteral]
    exact threads_halt _
  | succ depth =>
    have hd := h depth depth.lt_succ_self
    have hle : depth ≤ fuel := by omega
    rw [Evaluation.hashLiteral]
    have hpairs (key value : Expr) (hmem : (key, value) ∈ pairs) :
        (Evaluation.evaluate settings depth key frame).Evaluates false
            (Direct.evaluate settings fuel key frame) ∧
          (Evaluation.evaluate settings depth value frame).Evaluates false
            (Direct.evaluate settings fuel value frame) := by
      obtain ⟨hkey, hvalue⟩ := Expr.placed_of_mem_pairs hplaced hmem
      exact ⟨hd.evaluate_inner hle hkey, hd.evaluate_inner hle hvalue⟩
    exact threads_hashPairs hpairs (List.forall_mem_nil _)

theorem evaluate_succ (h : ∀ d < depth + 1, ThreadsAt settings d) (hfuel : depth ≤ fuel)
    {whole : Bool} {expression : Expr} (hplaced : expression.placed whole) :
    (Evaluation.evaluate settings (depth + 1) expression frame).Evaluates expression.hasReturn
      (Direct.evaluate settings (fuel + 1) expression frame) := by
  have hd := h depth depth.lt_succ_self
  have hbelow (d : Nat) (hlt : d < depth) : ThreadsAt settings d := h d (by omega)
  have hfalse {returns : Bool} (hno : false = true) : returns = true := by cases hno
  cases expression with
  | integer | string | boolean =>
    rw [Evaluation.evaluate, Direct.evaluate]
    exact threads_pure ⟨rfl, all_of_isPlain rfl trivial⟩
  | identifier name =>
    rw [Evaluation.evaluate, Direct.evaluate]
    exact (identifier name.value).mono hfalse
  | function origin parameters body =>
    rw [Expr.placed] at hplaced
    rw [Evaluation.evaluate, Direct.evaluate]
    exact threads_lift (ensures_makeFunction fun _ ↦ all_function_iff.mpr hplaced)
  | unary origin operator right =>
    rw [Expr.placed] at hplaced
    rw [Evaluation.evaluate, Direct.evaluate]
    refine .andThen (hd.evaluate_inner hfuel hplaced) fun value hvalue ↦ ?_
    exact (evaluates_raise (placed_or_error_of_isPlain (isPlain_unary _ _))).mono hfalse
  | binary origin left operator right =>
    rw [Expr.placed, Bool.and_eq_true] at hplaced
    rw [Evaluation.evaluate, Direct.evaluate]
    refine .andThen (hd.evaluate_inner hfuel hplaced.1) fun a ha ↦ ?_
    refine .andThen (hd.evaluate_inner hfuel hplaced.2) fun b hb ↦ ?_
    exact (evaluates_raise (placed_or_error_of_isPlain (isPlain_binary _ _ _))).mono hfalse
  | index origin left place =>
    rw [Expr.placed, Bool.and_eq_true] at hplaced
    rw [Evaluation.evaluate, Direct.evaluate]
    refine .andThen (hd.evaluate_inner hfuel hplaced.1) fun value hvalue ↦ ?_
    refine .andThen (hd.evaluate_inner hfuel hplaced.2) fun spot _ ↦ ?_
    exact (evaluates_raise (all_index_or_error trivial hvalue spot)).mono hfalse
  | array origin elements =>
    rw [Expr.placed] at hplaced
    rw [Evaluation.evaluate, Direct.evaluate]
    refine Threads.bind (evaluateEach hbelow hfuel hplaced) ?_ ?_
    · rintro _ values ⟨rfl, hvalues⟩
      exact threads_pure ⟨rfl, placed_array_iff.mpr hvalues⟩
    · rintro _ _ ⟨failure, rfl, rfl⟩
      exact ⟨_, rfl, .failed failure⟩
  | hash origin pairs =>
    rw [Expr.placed] at hplaced
    rw [Evaluation.evaluate, Direct.evaluate]
    exact (hashLiteral hbelow hfuel hplaced).mono hfalse
  | call origin callee arguments =>
    rw [Expr.placed, Bool.and_eq_true] at hplaced
    rw [Evaluation.evaluate, Direct.evaluate]
    exact (call hbelow hfuel hplaced.1 hplaced.2).mono hfalse
  | conditional origin condition consequence alternative =>
    cases alternative with
    | none =>
      simp only [Expr.placed, Bool.and_eq_true] at hplaced
      rw [Evaluation.evaluate, Direct.evaluate, Expr.hasReturn]
      refine conditional hbelow hfuel hplaced.1.2 hplaced.2 (by simp) ?_
        (by simp)
      intro hreturn
      rw [hreturn, Bool.or_true]
    | some block =>
      simp only [Expr.placed, Bool.and_eq_true] at hplaced
      rw [Evaluation.evaluate, Direct.evaluate, Expr.hasReturn]
      refine conditional hbelow hfuel hplaced.1.1.2 hplaced.1.2 ?_ ?_ ?_
      · rintro other ⟨⟩
        exact hplaced.2
      · intro hreturn
        rw [hreturn, Bool.or_true, Bool.true_or]
      · rintro other ⟨⟩ hreturn
        rw [hreturn, Bool.or_true]

theorem execute_succ (h : ∀ d < depth + 1, ThreadsAt settings d) (hfuel : depth ≤ fuel)
    {statement : Stmt} (hplaced : statement.placed) :
    (Evaluation.execute settings (depth + 1) statement frame).Executes statement.hasReturn
      (Direct.execute settings (fuel + 1) statement frame) := by
  have hd := h depth depth.lt_succ_self
  cases statement with
  | expression origin tree =>
    rw [Stmt.placed] at hplaced
    rw [Evaluation.execute, Direct.execute, Stmt.hasReturn]
    refine Threads.bind (hd.evaluate hfuel hplaced) ?_ ?_
    · rintro value _ ⟨rfl, hvalue⟩
      refine threads_pure ⟨rfl, ?_⟩
      rintro _ ⟨⟩
      exact hvalue
    · intro value exit hpassed
      exact ⟨_, rfl, value, rfl, hpassed⟩
  | returning origin tree =>
    rw [Stmt.placed] at hplaced
    rw [Evaluation.execute, Direct.execute, Stmt.hasReturn]
    refine Evaluates.bind (hd.evaluate_inner hfuel hplaced) (fun value hvalue ↦ ?_) fun failure ↦
      ⟨_, rfl, _, rfl, .failed failure⟩
    split
    · exact hvalue.self.elim
    · exact threads_throw ⟨_, rfl, .returned rfl value hvalue⟩
  | binding origin name tree =>
    rw [Stmt.placed] at hplaced
    rw [Evaluation.execute, Direct.execute, Stmt.hasReturn]
    refine Evaluates.bind (hd.evaluate_inner hfuel hplaced) (fun value hvalue ↦ ?_) fun failure ↦
      ⟨_, rfl, _, rfl, .failed failure⟩
    split
    · exact hvalue.self.elim
    · refine .bind_lift (ensures_setVariable fun scopes hscopes ↦
        hscopes.set frame name.value hvalue) (.refl _) fun _ _ ↦ ?_
      refine .bind_note (Halt.widens_beyond _) ?_
      exact threads_pure ⟨rfl, by simp⟩
  | block block =>
    rw [Evaluation.execute, Direct.execute, Stmt.hasReturn]
    obtain ⟨origin, statements⟩ := block
    rw [Stmt.placed, Block.placed] at hplaced
    cases depth with
    | zero =>
      rw [Evaluation.executeEach]
      exact threads_halt _
    | succ depth =>
      rw [Evaluation.executeEach, Block.hasReturn]
      refine executes_runEach (fun statement hmem ↦ ?_) (by simp)
      refine Executes.mono ((h depth (by omega)).execute (by omega)
        (Stmt.placed_of_mem hplaced hmem)) ?_
      exact Stmt.hasReturnIn_of_mem hmem

end ThreadsAt

theorem threadsAt (settings : Settings) (depth : Nat) : ThreadsAt settings depth := by
  induction depth using Nat.strong_induction_on with
  | _ depth ih =>
    cases depth with
    | zero =>
      constructor
      · intros
        rw [evaluate]
        exact threads_halt _
      · intros
        rw [execute]
        exact threads_halt _
    | succ depth =>
      constructor
      · intro frame fuel whole expression hfuel hplaced
        obtain ⟨fuel, rfl⟩ := Nat.exists_eq_add_one_of_ne_zero (Nat.ne_zero_of_lt hfuel)
        exact ThreadsAt.evaluate_succ ih (by omega) hplaced
      · intro frame fuel statement hfuel hplaced
        obtain ⟨fuel, rfl⟩ := Nat.exists_eq_add_one_of_ne_zero (Nat.ne_zero_of_lt hfuel)
        exact ThreadsAt.execute_succ ih (by omega) hplaced

/-! ### Programs -/

/-- A statement of a program, whose end both trace. -/
theorem executes_traced {settings : Settings} {statement : Stmt} {run : Run (Option Value)}
    {direct : Direct (Option Value)} {returns : Bool} (h : run.Executes returns direct) :
    (do
      let result ← run
      noteStatement settings (some settings.depthLimit) statement result
      return result : Run (Option Value)).Executes returns
        (Direct.traced settings statement direct) := by
  have hnote (ended : Except Exit (Option Value)) :
      (noteStatement settings (some settings.depthLimit) statement
        (Direct.shown ended)).Ensures Placed fun _ ↦ True :=
    ensures_note _ _ _ _
  have hshort (ended : Except Exit (Option Value)) :
      (noteStatement settings (some settings.depthLimit) statement (Direct.shown ended)).ShortOf
        (noteStatement settings none statement (Direct.shown ended)) :=
    shortOf_note (widens_statementObstacle? _ _) (Room.le_none _) _ _ _
  refine Threads.handle h ?_ ?_
  · rintro result _ ⟨rfl, hresult⟩
    exact .bind_run (hnote (.ok result)) (hshort (.ok result)) fun _ _ ↦
      threads_pure ⟨rfl, hresult⟩
  · rintro _ exit ⟨value, rfl, hpassed⟩
    have hshown : some value = Direct.shown (.error exit) := by
      cases hpassed <;> rfl
    rw [hshown]
    refine .bind_run (hnote (.error exit)) (hshort (.error exit)) fun _ _ ↦ ?_
    exact threads_throw ⟨value, hshown.symm, hpassed⟩

/-- How a program goes on once a statement has its result. -/
def afterStatement (settings : Settings) (frame : FrameId) (rest : List Stmt) :
    Option Value → Run (Option Value)
  | some (.returned value) => pure (some value)
  | some (.error failure) => pure (some (.error failure))
  | found => programResult settings frame found rest

theorem programResult_cons_eq_bind {settings : Settings} {frame : FrameId} {result : Option Value}
    {statement : Stmt} {rest : List Stmt} :
    programResult settings frame result (statement :: rest) =
      (do
        let found ← execute settings settings.depthLimit statement frame
        noteStatement settings (some settings.depthLimit) statement found
        return found) >>= afterStatement settings frame rest := by
  rw [programResult, bind_assoc]
  refine bind_congr fun found ↦ ?_
  rw [bind_assoc]
  refine bind_congr fun _ ↦ Eq.trans ?_ (pure_bind found _).symm
  rfl

theorem threads_programResult {settings : Settings} {frame : FrameId} {fuel : Nat}
    (hfuel : settings.depthLimit ≤ fuel) {statements : List Stmt}
    (hplaced : Stmt.placedEach statements) (result : Option Value) :
    (programResult settings frame result statements).Threads
      (fun found other ↦ found = Direct.result (.ok other))
      (fun found exit ↦ found = Direct.result (.error exit))
      (statements.foldlM (fun _ statement ↦
        Direct.traced settings statement (Direct.execute settings fuel statement frame))
          result) := by
  induction statements generalizing result with
  | nil => exact threads_pure rfl
  | cons statement rest ih =>
    rw [Stmt.placedEach, Bool.and_eq_true] at hplaced
    have hstatement : (execute settings settings.depthLimit statement frame).Executes
        statement.hasReturn (Direct.execute settings fuel statement frame) :=
      (threadsAt settings _).execute hfuel hplaced.1
    rw [programResult_cons_eq_bind, List.foldlM_cons]
    refine Threads.bind (executes_traced hstatement) ?_ ?_
    · rintro found _ ⟨rfl, hfound⟩
      rw [afterStatement.eq_def]
      split
      · exact (hfound _ rfl).self.elim
      · exact (hfound _ rfl).self.elim
      · exact ih hplaced.2 found
    · rintro _ exit ⟨value, rfl, hpassed⟩
      cases hpassed with
      | failed failure => exact ⟨_, rfl, rfl⟩
      | returned hreturns inner hinner => exact ⟨_, rfl, rfl⟩

end Evaluation

theorem placed_start : Placed Machine.start.scopes := by
  have hempty : Placed {} := fun frame hframe ↦ absurd hframe (Array.not_mem_empty _)
  exact hempty.newFrame none

theorem Program.run_eq_of_not_isTooDeep {settings : Settings} {program : Program} {frame : FrameId}
    {machine : Machine}
    (hdepth : (Evaluation.programResult settings frame none program.statements
      machine).isTooDeep = false) :
    program.run settings frame machine =
      Evaluation.programResult settings frame none program.statements machine := by
  rw [Program.run]
  split
  · rename_i heq
    rw [heq] at hdepth
    cases hdepth
  · rfl

/-- A program in which no return has to find its way out of an expression does what it does in
direct style: it gives the same value or none, and leaves the same output, variables and trace,
unless there are too many nested steps. -/
theorem value_threading_implements_exits (settings : Settings) (program : Program) (fuel : Nat)
    (hplaced : program.placed) (hfuel : settings.depthLimit ≤ fuel)
    (hdepth : (Evaluation.programResult settings topFrame none program.statements
      Machine.start).isTooDeep = false) :
    program.run settings topFrame Machine.start =
      Direct.runProgram settings fuel program topFrame Machine.start := by
  rw [Program.run_eq_of_not_isTooDeep hdepth]
  exact Run.Threads.eq_of_not_isTooDeep (Evaluation.threads_programResult hfuel hplaced none)
    placed_start hdepth

/-- Returns out of nested blocks, of which the last ends the program before an error. -/
theorem value_threading_implements_exits_of_nested_blocks :
    let program := (Program.ofSource ("let f = fn(x) \x7b if (x) \x7b if (len([x]) == 1) " ++
      "\x7b return [x] \x7d; puts(1) \x7d; 2 \x7d; puts(f(true)[0]); if (f(false) == 2) " ++
      "\x7b return f \x7d; 3 + true")).program
    program.placed ∧ program.run {} topFrame Machine.start =
      Direct.runProgram {} 50000 program topFrame Machine.start :=
  ⟨by decide +kernel,
    value_threading_implements_exits {} _ 50000 (by decide +kernel) le_rfl (by decide +kernel)⟩

end MonkeyLang
