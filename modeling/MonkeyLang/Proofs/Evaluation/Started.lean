import Mathlib.Tactic
import MonkeyLang.Proofs.Evaluation.Absorption

/-!
# The activations of a run

Which activations an activation starts can be computed by running it (`Activation.started`), and so
can all that are started on the way, as no more of them follow one another than nested steps are
allowed (`Activation.mem_reached`). What is claimed of every activation of a run can thus be checked
one after the other.
-/

set_option autoImplicit false

namespace MonkeyLang

variable {α β γ : Type}

/-- What follows from the value and the machine at the end of a run, and nothing behind a halt. -/
def Outcome.followed (outcome : Outcome α) (next : α → Machine → List γ) : List γ :=
  match outcome with
  | .done found machine => next found machine
  | .halted _ _ => []

namespace Evaluation

/-! ### Loops -/

instance : DecidablePred IsEntry :=
  fun found ↦ inferInstanceAs (Decidable (found.1.key?.isSome ∧ found.2.isError = false))

/-- The items that a loop comes to, each with the machine at that moment. -/
def visits (run : α → Run β) (goesOn : β → Prop) [DecidablePred goesOn] :
    List α → Machine → List (α × Machine)
  | [], _ => []
  | item :: rest, machine =>
    (item, machine) :: (run item machine).followed fun found middle ↦
      if goesOn found then visits run goesOn rest middle else []

theorem Passes.mem_visits {run : α → Run β} {goesOn : β → Prop} [DecidablePred goesOn]
    {before : List α} {machine middle : Machine} (h : Passes run goesOn before machine middle)
    (item : α) (rest : List α) :
    (item, middle) ∈ visits run goesOn (before ++ item :: rest) machine := by
  induction h with
  | nil => exact .head _
  | cons hrun hgoesOn _ ih =>
    refine .tail _ ?_
    rw [hrun, Outcome.followed, if_pos hgoesOn]
    exact ih

/-! ### Activations that are started -/

section

variable (settings : Settings) (depth : Nat) (frame : FrameId) (machine : Machine)

def startedByStatement : Stmt → List Activation
  | .expression _ expression | .returning _ expression | .binding _ _ expression =>
    [⟨.evaluate expression, depth, frame, machine⟩]
  | .block block => [⟨.executeEach block.statements, depth, frame, machine⟩]

/-- Two expressions, the second only if the first does not give an error. -/
def startedByOperands (left right : Expr) : List Activation :=
  ⟨.evaluate left, depth, frame, machine⟩ ::
    (evaluate settings depth left frame machine).followed fun found middle ↦
      if found.isError then [] else [⟨.evaluate right, depth, frame, middle⟩]

def startedByExpression : Expr → List Activation
  | .unary _ _ right => [⟨.evaluate right, depth, frame, machine⟩]
  | .binary _ left _ right => startedByOperands settings depth frame machine left right
  | .index _ left place => startedByOperands settings depth frame machine left place
  | .array _ elements => [⟨.evaluateEach elements, depth, frame, machine⟩]
  | .hash _ pairs => [⟨.hashLiteral pairs, depth, frame, machine⟩]
  | .conditional _ condition consequence alternative =>
    [⟨.conditional condition consequence alternative, depth, frame, machine⟩]
  | .call _ callee arguments => [⟨.call callee arguments, depth, frame, machine⟩]
  | .identifier _ | .integer _ _ | .boolean _ _ | .string _ _ | .function _ _ _ => []

def startedByPair (pair : Expr × Expr) (machine : Machine) : List Activation :=
  ⟨.evaluate pair.1, depth, frame, machine⟩ ::
    (evaluate settings depth pair.1 frame machine).followed fun _ after ↦
      [⟨.evaluate pair.2, depth, frame, after⟩]

def startedByConditional (condition : Expr) (consequence : Block) (alternative : Option Block) :
    List Activation :=
  ⟨.evaluate condition, depth, frame, machine⟩ ::
    (evaluate settings depth condition frame machine).followed fun found middle ↦
      (noteCondition settings (some depth) found middle).followed fun _ noted ↦
        if found.truthy then [⟨.execute (.block consequence), depth, frame, noted⟩]
        else alternative.toList.map fun block ↦ ⟨.execute (.block block), depth, frame, noted⟩

def startedByFunction (closure : Closure) (callee : Expr) (arguments : List Expr)
    (machine : Machine) : List Activation :=
  (Run.openFrame closure.frame machine).followed fun inner opened ↦
    let evaluate (argument : Expr) := evaluate settings depth argument frame
    (visits (bindOne evaluate inner) (·.isError = false) (closure.parameters.zip arguments)
        opened).map (fun visit ↦ ⟨.evaluate visit.1.2, depth, frame, visit.2⟩) ++
      (bindArguments evaluate inner closure.parameters arguments opened).followed fun _ bound ↦
        (noteCall settings (some depth) callee arguments.length bound).followed fun _ noted ↦
          [⟨.execute (.block closure.body), depth, inner, noted⟩]

def startedByCall (callee : Expr) (arguments : List Expr) : List Activation :=
  ⟨.evaluate callee, depth, frame, machine⟩ ::
    (evaluate settings depth callee frame machine).followed fun found middle ↦
      match found with
      | .function closure => startedByFunction settings depth frame closure callee arguments middle
      | .builtin _ => [⟨.evaluateEach arguments, depth, frame, middle⟩]
      | _ => []

end

/-- At least the activations that are directly started. -/
def Activation.started (settings : Settings) : Activation → List Activation
  | ⟨.program statements, _, frame, machine⟩ =>
    (visits (executeTraced settings frame) (ends · = false) statements machine).map fun visit ↦
      ⟨.execute visit.1, settings.depthLimit, frame, visit.2⟩
  | ⟨.execute statement, depth + 1, frame, machine⟩ =>
    startedByStatement depth frame machine statement
  | ⟨.executeEach statements, depth + 1, frame, machine⟩ =>
    (visits (fun statement ↦ Evaluation.execute settings depth statement frame) (ends · = false)
      statements machine).map fun visit ↦ ⟨.execute visit.1, depth, frame, visit.2⟩
  | ⟨.evaluate expression, depth + 1, frame, machine⟩ =>
    startedByExpression settings depth frame machine expression
  | ⟨.evaluateEach expressions, depth + 1, frame, machine⟩ =>
    (visits (fun expression ↦ Evaluation.evaluate settings depth expression frame)
      (·.isError = false) expressions machine).map fun visit ↦
        ⟨.evaluate visit.1, depth, frame, visit.2⟩
  | ⟨.conditional condition consequence alternative, depth + 1, frame, machine⟩ =>
    startedByConditional settings depth frame machine condition consequence alternative
  | ⟨.call callee arguments, depth + 1, frame, machine⟩ =>
    startedByCall settings depth frame machine callee arguments
  | ⟨.hashLiteral pairs, depth + 1, frame, machine⟩ =>
    (visits (evaluatePair fun expression ↦ Evaluation.evaluate settings depth expression frame)
      IsEntry pairs machine).flatMap fun visit ↦ startedByPair settings depth frame visit.1 visit.2
  | ⟨_, 0, _, _⟩ => []

variable {settings : Settings} {outer inner : Activation}

theorem Starts.mem_started (h : Starts settings outer inner) :
    inner ∈ outer.started settings := by
  cases h with
  | statement hbefore | blockStatement hbefore | item hbefore =>
    exact List.mem_map.mpr ⟨_, hbefore.mem_visits _ _, rfl⟩
  | expression | returned | bound | block | operand | array | hash | conditional | call =>
    exact .head _
  | left | indexed | condition | callee => exact .head _
  | right hleft hfound | place hleft hfound =>
    refine .tail _ ?_
    rw [hleft, Outcome.followed, hfound]
    exact .head _
  | key hbefore => exact List.mem_flatMap.mpr ⟨_, hbefore.mem_visits _ _, .head _⟩
  | value hbefore hkey hfound =>
    refine List.mem_flatMap.mpr ⟨_, hbefore.mem_visits _ _, .tail _ ?_⟩
    rw [hkey]
    exact .head _
  | consequence hcondition hfound hnote htruthy =>
    refine .tail _ ?_
    rw [hcondition, Outcome.followed, hnote, Outcome.followed, if_pos htruthy]
    exact .head _
  | alternative hcondition hfound hnote htruthy =>
    refine .tail _ ?_
    rw [hcondition, Outcome.followed, hnote, Outcome.followed, htruthy]
    exact .head _
  | argument hcallee hopen hpairs hbefore =>
    refine .tail _ ?_
    rw [hcallee, Outcome.followed]
    dsimp only
    rw [startedByFunction, hopen, Outcome.followed, hpairs]
    exact List.mem_append_left _ (List.mem_map.mpr ⟨_, hbefore.mem_visits _ _, rfl⟩)
  | body hcallee hopen hbind hnote =>
    refine .tail _ ?_
    rw [hcallee, Outcome.followed]
    dsimp only
    rw [startedByFunction, hopen, Outcome.followed]
    dsimp only
    rw [hbind, Outcome.followed, hnote]
    exact List.mem_append_right _ (.head _)
  | arguments hcallee =>
    refine .tail _ ?_
    rw [hcallee]
    exact .head _

/-- An activation and what it starts, and what that starts, as often as the bound says. -/
def Activation.reached (settings : Settings) : Nat → Activation → List Activation
  | 0, activation => [activation]
  | bound + 1, activation =>
    activation :: (activation.started settings).flatMap (reached settings bound)

theorem Activation.mem_reached (h : Relation.ReflTransGen (Starts settings) outer inner)
    {bound : Nat} (hrank : outer.rank settings ≤ bound) : inner ∈ outer.reached settings bound := by
  induction h using Relation.ReflTransGen.head_induction_on generalizing bound with
  | refl => cases bound <;> exact .head _
  | head hstarts _ ih =>
    have hlt := hstarts.rank_lt
    cases bound with
    | zero => omega
    | succ bound =>
      exact .tail _ (List.mem_flatMap.mpr ⟨_, hstarts.mem_started, ih (by omega)⟩)

end Evaluation

end MonkeyLang
