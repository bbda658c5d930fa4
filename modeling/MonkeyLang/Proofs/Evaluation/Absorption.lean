import Mathlib.Tactic
import MonkeyLang.Proofs.Evaluation.Failing
import MonkeyLang.Proofs.Evaluation.Lockstep

/-!
# Errors are absorbed

An evaluation that starts another one, and sees it end with an error, ends with that error at once:
nothing more is printed and no binding changes. The evaluations are the activations of the
evaluating functions, each with the frame and the machine that it is started with; `Starts` says
which one directly starts which, and when.

So an error that is the result of a program has come up along a chain of activations from the one
that has produced it (`Produces`), and the program leaves the output and the bindings of that
moment. There are two other ends: too many nested steps halt the program as a whole, and the line
that traces a statement, which is written before its result is looked at, may be stopped itself
(`Activation.StopsBehind`). Neither of them prints or binds anything either.
-/

set_option autoImplicit false

namespace MonkeyLang

/-- Nothing has been printed and no binding has changed in between. -/
def Machine.Unchanged (before after : Machine) : Prop :=
  after.output = before.output ∧ after.scopes = before.scopes

theorem Machine.Unchanged.refl (machine : Machine) : machine.Unchanged machine :=
  ⟨rfl, rfl⟩

theorem Machine.Unchanged.trans {first second third : Machine} (h : first.Unchanged second)
    (h' : second.Unchanged third) : first.Unchanged third :=
  ⟨h'.1.trans h.1, h'.2.trans h.2⟩

namespace Evaluation

/-! ### Activations -/

/-- What an evaluating function is called for. -/
inductive Task where
  | program (statements : List Stmt)
  | execute (statement : Stmt)
  | executeEach (statements : List Stmt)
  | evaluate (expression : Expr)
  | evaluateEach (expressions : List Expr)
  | conditional (condition : Expr) (consequence : Block) (alternative : Option Block)
  | call (callee : Expr) (arguments : List Expr)
  | hashLiteral (pairs : List (Expr × Expr))

/-- A task with the number of nested steps that are allowed for it, its frame, and the machine at
its start. -/
structure Activation where
  task : Task
  depth : Nat
  frame : FrameId
  machine : Machine

/-- The activation ends with the error and leaves the machine. -/
def Activation.Fails (settings : Settings) (failure : Failure) (final : Machine) :
    Activation → Prop
  | ⟨.program statements, _, frame, machine⟩ =>
    programResult settings frame none statements machine = .done (some (.error failure)) final
  | ⟨.execute statement, depth, frame, machine⟩ =>
    execute settings depth statement frame machine = .done (some (.error failure)) final
  | ⟨.executeEach statements, depth, frame, machine⟩ =>
    executeEach settings depth statements frame machine = .done (some (.error failure)) final
  | ⟨.evaluate expression, depth, frame, machine⟩ =>
    evaluate settings depth expression frame machine = .done (.error failure) final
  | ⟨.evaluateEach expressions, depth, frame, machine⟩ =>
    evaluateEach settings depth expressions frame machine = .done (.error failure) final
  | ⟨.conditional condition consequence alternative, depth, frame, machine⟩ =>
    conditional settings depth condition consequence alternative frame machine =
      .done (.error failure) final
  | ⟨.call callee arguments, depth, frame, machine⟩ =>
    call settings depth callee arguments frame machine = .done (.error failure) final
  | ⟨.hashLiteral pairs, depth, frame, machine⟩ =>
    hashLiteral settings depth pairs frame machine = .done (.error failure) final

section

variable (settings : Settings)

/-- The first activation directly starts the second one, with the machine that all it has done
before has left. -/
inductive Starts : Activation → Activation → Prop
  | statement {before rest : List Stmt} {statement : Stmt} {depth : Nat} {frame : FrameId}
    {machine middle : Machine}
    (hbefore : Passes (executeTraced settings frame) (ends · = false) before machine middle) :
    Starts ⟨.program (before ++ statement :: rest), depth, frame, machine⟩
      ⟨.execute statement, settings.depthLimit, frame, middle⟩
  | expression {origin : Origin} {expression : Expr} {depth : Nat} {frame : FrameId}
    {machine : Machine} :
    Starts ⟨.execute (.expression origin expression), depth + 1, frame, machine⟩
      ⟨.evaluate expression, depth, frame, machine⟩
  | returned {origin : Origin} {expression : Expr} {depth : Nat} {frame : FrameId}
    {machine : Machine} :
    Starts ⟨.execute (.returning origin expression), depth + 1, frame, machine⟩
      ⟨.evaluate expression, depth, frame, machine⟩
  | bound {origin : Origin} {name : Identifier} {expression : Expr} {depth : Nat} {frame : FrameId}
    {machine : Machine} :
    Starts ⟨.execute (.binding origin name expression), depth + 1, frame, machine⟩
      ⟨.evaluate expression, depth, frame, machine⟩
  | block {block : Block} {depth : Nat} {frame : FrameId} {machine : Machine} :
    Starts ⟨.execute (.block block), depth + 1, frame, machine⟩
      ⟨.executeEach block.statements, depth, frame, machine⟩
  | blockStatement {before rest : List Stmt} {statement : Stmt} {depth : Nat} {frame : FrameId}
    {machine middle : Machine}
    (hbefore : Passes (fun statement ↦ Evaluation.execute settings depth statement frame)
      (ends · = false) before machine middle) :
    Starts ⟨.executeEach (before ++ statement :: rest), depth + 1, frame, machine⟩
      ⟨.execute statement, depth, frame, middle⟩
  | operand {origin : Origin} {operator : String} {right : Expr} {depth : Nat} {frame : FrameId}
    {machine : Machine} :
    Starts ⟨.evaluate (.unary origin operator right), depth + 1, frame, machine⟩
      ⟨.evaluate right, depth, frame, machine⟩
  | left {origin : Origin} {left right : Expr} {operator : String} {depth : Nat} {frame : FrameId}
    {machine : Machine} :
    Starts ⟨.evaluate (.binary origin left operator right), depth + 1, frame, machine⟩
      ⟨.evaluate left, depth, frame, machine⟩
  | right {origin : Origin} {left right : Expr} {operator : String} {depth : Nat} {frame : FrameId}
    {machine middle : Machine} {found : Value}
    (hleft : Evaluation.evaluate settings depth left frame machine = .done found middle)
    (hfound : found.isError = false) :
    Starts ⟨.evaluate (.binary origin left operator right), depth + 1, frame, machine⟩
      ⟨.evaluate right, depth, frame, middle⟩
  | indexed {origin : Origin} {left place : Expr} {depth : Nat} {frame : FrameId}
    {machine : Machine} :
    Starts ⟨.evaluate (.index origin left place), depth + 1, frame, machine⟩
      ⟨.evaluate left, depth, frame, machine⟩
  | place {origin : Origin} {left place : Expr} {depth : Nat} {frame : FrameId}
    {machine middle : Machine} {found : Value}
    (hleft : Evaluation.evaluate settings depth left frame machine = .done found middle)
    (hfound : found.isError = false) :
    Starts ⟨.evaluate (.index origin left place), depth + 1, frame, machine⟩
      ⟨.evaluate place, depth, frame, middle⟩
  | array {origin : Origin} {elements : List Expr} {depth : Nat} {frame : FrameId}
    {machine : Machine} :
    Starts ⟨.evaluate (.array origin elements), depth + 1, frame, machine⟩
      ⟨.evaluateEach elements, depth, frame, machine⟩
  | item {before rest : List Expr} {expression : Expr} {depth : Nat} {frame : FrameId}
    {machine middle : Machine}
    (hbefore : Passes (fun expression ↦ Evaluation.evaluate settings depth expression frame)
      (·.isError = false) before machine middle) :
    Starts ⟨.evaluateEach (before ++ expression :: rest), depth + 1, frame, machine⟩
      ⟨.evaluate expression, depth, frame, middle⟩
  | hash {origin : Origin} {pairs : List (Expr × Expr)} {depth : Nat} {frame : FrameId}
    {machine : Machine} :
    Starts ⟨.evaluate (.hash origin pairs), depth + 1, frame, machine⟩
      ⟨.hashLiteral pairs, depth, frame, machine⟩
  | key {before rest : List (Expr × Expr)} {pair : Expr × Expr} {depth : Nat} {frame : FrameId}
    {machine middle : Machine}
    (hbefore : Passes
      (evaluatePair fun expression ↦ Evaluation.evaluate settings depth expression frame)
      IsEntry before machine middle) :
    Starts ⟨.hashLiteral (before ++ pair :: rest), depth + 1, frame, machine⟩
      ⟨.evaluate pair.1, depth, frame, middle⟩
  | value {before rest : List (Expr × Expr)} {pair : Expr × Expr} {depth : Nat} {frame : FrameId}
    {machine middle after : Machine} {found : Value}
    (hbefore : Passes
      (evaluatePair fun expression ↦ Evaluation.evaluate settings depth expression frame)
      IsEntry before machine middle)
    (hkey : Evaluation.evaluate settings depth pair.1 frame middle = .done found after)
    (hfound : found.key?.isSome) :
    Starts ⟨.hashLiteral (before ++ pair :: rest), depth + 1, frame, machine⟩
      ⟨.evaluate pair.2, depth, frame, after⟩
  | conditional {origin : Origin} {condition : Expr} {consequence : Block}
    {alternative : Option Block} {depth : Nat} {frame : FrameId} {machine : Machine} :
    Starts
      ⟨.evaluate (.conditional origin condition consequence alternative), depth + 1, frame, machine⟩
      ⟨.conditional condition consequence alternative, depth, frame, machine⟩
  | condition {condition : Expr} {consequence : Block} {alternative : Option Block} {depth : Nat}
    {frame : FrameId} {machine : Machine} :
    Starts ⟨.conditional condition consequence alternative, depth + 1, frame, machine⟩
      ⟨.evaluate condition, depth, frame, machine⟩
  | consequence {condition : Expr} {consequence : Block} {alternative : Option Block} {depth : Nat}
    {frame : FrameId} {machine middle noted : Machine} {found : Value}
    (hcondition : Evaluation.evaluate settings depth condition frame machine = .done found middle)
    (hfound : found.isError = false)
    (hnote : noteCondition settings (some depth) found middle = .done () noted)
    (htruthy : found.truthy = true) :
    Starts ⟨.conditional condition consequence alternative, depth + 1, frame, machine⟩
      ⟨.execute (.block consequence), depth, frame, noted⟩
  | alternative {condition : Expr} {consequence block : Block} {depth : Nat}
    {frame : FrameId} {machine middle noted : Machine} {found : Value}
    (hcondition : Evaluation.evaluate settings depth condition frame machine = .done found middle)
    (hfound : found.isError = false)
    (hnote : noteCondition settings (some depth) found middle = .done () noted)
    (htruthy : found.truthy = false) :
    Starts ⟨.conditional condition consequence (some block), depth + 1, frame, machine⟩
      ⟨.execute (.block block), depth, frame, noted⟩
  | call {origin : Origin} {callee : Expr} {arguments : List Expr} {depth : Nat} {frame : FrameId}
    {machine : Machine} :
    Starts ⟨.evaluate (.call origin callee arguments), depth + 1, frame, machine⟩
      ⟨.call callee arguments, depth, frame, machine⟩
  | callee {callee : Expr} {arguments : List Expr} {depth : Nat} {frame : FrameId}
    {machine : Machine} :
    Starts ⟨.call callee arguments, depth + 1, frame, machine⟩
      ⟨.evaluate callee, depth, frame, machine⟩
  | argument {callee : Expr} {arguments : List Expr} {depth : Nat} {frame inner : FrameId}
    {machine middle opened reached : Machine} {closure : Closure}
    {before rest : List (Identifier × Expr)} {pair : Identifier × Expr}
    (hcallee : Evaluation.evaluate settings depth callee frame machine =
      .done (.function closure) middle)
    (hopen : Run.openFrame closure.frame middle = .done inner opened)
    (hpairs : closure.parameters.zip arguments = before ++ pair :: rest)
    (hbefore : Passes
      (bindOne (fun argument ↦ Evaluation.evaluate settings depth argument frame) inner)
      (·.isError = false) before opened reached) :
    Starts ⟨.call callee arguments, depth + 1, frame, machine⟩
      ⟨.evaluate pair.2, depth, frame, reached⟩
  | body {callee : Expr} {arguments : List Expr} {depth : Nat} {frame inner : FrameId}
    {machine middle opened bound noted : Machine} {closure : Closure}
    (hcallee : Evaluation.evaluate settings depth callee frame machine =
      .done (.function closure) middle)
    (hopen : Run.openFrame closure.frame middle = .done inner opened)
    (hbind : bindArguments (fun argument ↦ Evaluation.evaluate settings depth argument frame) inner
      closure.parameters arguments opened = .done none bound)
    (hnote : noteCall settings (some depth) callee arguments.length bound = .done () noted) :
    Starts ⟨.call callee arguments, depth + 1, frame, machine⟩
      ⟨.execute (.block closure.body), depth, inner, noted⟩
  | arguments {callee : Expr} {arguments : List Expr} {depth : Nat} {frame : FrameId}
    {machine middle : Machine} {builtin : Builtin}
    (hcallee : Evaluation.evaluate settings depth callee frame machine =
      .done (.builtin builtin) middle) :
    Starts ⟨.call callee arguments, depth + 1, frame, machine⟩
      ⟨.evaluateEach arguments, depth, frame, middle⟩

/-- The activation makes the error itself, with the machine at that moment: everything that it has
started has gone on. -/
inductive Produces : Activation → Failure → Machine → Prop
  | stored {name : Identifier} {depth : Nat} {frame : FrameId} {machine : Machine}
    {failure : Failure} (hget : machine.scopes.get? frame name.value = some (.error failure)) :
    Produces ⟨.evaluate (.identifier name), depth + 1, frame, machine⟩ failure machine
  | undefined {name : Identifier} {depth : Nat} {frame : FrameId} {machine : Machine}
    (hget : machine.scopes.get? frame name.value = none)
    (hbuiltin : Entries.get? settings.builtins name.value = none) :
    Produces ⟨.evaluate (.identifier name), depth + 1, frame, machine⟩
      ⟨.undefinedIdentifier, name.value⟩ machine
  | unary {origin : Origin} {operator : String} {right : Expr} {depth : Nat} {frame : FrameId}
    {machine final : Machine} {found : Value} {failure : Failure}
    (hright : Evaluation.evaluate settings depth right frame machine = .done found final)
    (hfound : found.isError = false) (hresult : Value.unary operator found = .error failure) :
    Produces ⟨.evaluate (.unary origin operator right), depth + 1, frame, machine⟩ failure final
  | binary {origin : Origin} {left right : Expr} {operator : String} {depth : Nat} {frame : FrameId}
    {machine middle final : Machine} {a b : Value} {failure : Failure}
    (hleft : Evaluation.evaluate settings depth left frame machine = .done a middle)
    (ha : a.isError = false)
    (hright : Evaluation.evaluate settings depth right frame middle = .done b final)
    (hb : b.isError = false) (hresult : Value.binary operator a b = .error failure) :
    Produces ⟨.evaluate (.binary origin left operator right), depth + 1, frame, machine⟩ failure
      final
  | index {origin : Origin} {left place : Expr} {depth : Nat} {frame : FrameId}
    {machine middle final : Machine} {a b : Value} {failure : Failure}
    (hleft : Evaluation.evaluate settings depth left frame machine = .done a middle)
    (ha : a.isError = false)
    (hplace : Evaluation.evaluate settings depth place frame middle = .done b final)
    (hb : b.isError = false) (hresult : Value.index a b = .error failure) :
    Produces ⟨.evaluate (.index origin left place), depth + 1, frame, machine⟩ failure final
  | key {before rest : List (Expr × Expr)} {pair : Expr × Expr} {depth : Nat} {frame : FrameId}
    {machine middle final : Machine} {found : Value} {failure : Failure}
    (hbefore : Passes
      (evaluatePair fun expression ↦ Evaluation.evaluate settings depth expression frame)
      IsEntry before machine middle)
    (hkey : Evaluation.evaluate settings depth pair.1 frame middle = .done found final)
    (hfound : found.isError = false) (hnone : found.key? = none)
    (hresult : Value.invalidHashKey found = .error failure) :
    Produces ⟨.hashLiteral (before ++ pair :: rest), depth + 1, frame, machine⟩ failure final
  | uncallable {callee : Expr} {arguments : List Expr} {depth : Nat} {frame : FrameId}
    {machine final : Machine} {found : Value}
    (hcallee : Evaluation.evaluate settings depth callee frame machine = .done found final)
    (hfound : found.IsUncallable) :
    Produces ⟨.call callee arguments, depth + 1, frame, machine⟩
      ⟨.callNonFunction, found.typeName⟩ final
  | builtin {callee : Expr} {arguments : List Expr} {depth : Nat} {frame : FrameId}
    {machine middle after noted final : Machine} {builtin : Builtin} {values : List Value}
    {failure : Failure}
    (hcallee : Evaluation.evaluate settings depth callee frame machine =
      .done (.builtin builtin) middle)
    (hvalues : Evaluation.evaluateEach settings depth arguments frame middle =
      .done (.ok values) after)
    (hnote : noteBuiltin settings (some depth) builtin values after = .done () noted)
    (hresult : builtin.call (some depth) values noted = .done (.error failure) final) :
    Produces ⟨.call callee arguments, depth + 1, frame, machine⟩ failure final
  | unwrapped {callee : Expr} {arguments : List Expr} {depth : Nat} {frame inner : FrameId}
    {machine middle opened bound noted final : Machine} {closure : Closure} {failure : Failure}
    (hcallee : Evaluation.evaluate settings depth callee frame machine =
      .done (.function closure) middle)
    (hopen : Run.openFrame closure.frame middle = .done inner opened)
    (hbind : bindArguments (fun argument ↦ Evaluation.evaluate settings depth argument frame) inner
      closure.parameters arguments opened = .done none bound)
    (hnote : noteCall settings (some depth) callee arguments.length bound = .done () noted)
    (hbody : Evaluation.execute settings depth (.block closure.body) inner noted =
      .done (some (.returned (.error failure))) final) :
    Produces ⟨.call callee arguments, depth + 1, frame, machine⟩ failure final
  | unwrappedLast {before rest : List Stmt} {statement : Stmt} {depth : Nat} {frame : FrameId}
    {machine middle final : Machine} {failure : Failure}
    (hbefore : Passes (executeTraced settings frame) (ends · = false) before machine middle)
    (hstatement : Evaluation.execute settings settings.depthLimit statement frame middle =
      .done (some (.returned (.error failure))) final) :
    Produces ⟨.program (before ++ statement :: rest), depth, frame, machine⟩ failure final

end

variable {settings : Settings} {outer inner : Activation} {failure : Failure}
  {machine after final : Machine}

/-! ### Passing an error on -/

/-- Tracing a statement leaves the output and the bindings alone, and stops where something stands
in the way of the line. -/
theorem noteStatement_cases (settings : Settings) (room : Room) (statement : Stmt)
    (result : Option Value) (machine : Machine) :
    (∃ final, noteStatement settings room statement result machine = .done () final ∧
        machine.Unchanged final) ∨
      ∃ reason, 1 ≤ settings.verbosity ∧ statementObstacle? statement result room = some reason ∧
        noteStatement settings room statement result machine = .halted reason machine := by
  rw [noteStatement, Run.note]
  split_ifs with hlevel
  · cases hobstacle : statementObstacle? statement result room with
    | none => exact .inl ⟨_, rfl, rfl, rfl⟩
    | some reason => exact .inr ⟨reason, hlevel, rfl, rfl⟩
  · exact .inl ⟨machine, rfl, .refl machine⟩

theorem unchanged_noteStatement {room : Room} {statement : Stmt} {result : Option Value}
    (hnote : noteStatement settings room statement result machine = .done () final) :
    machine.Unchanged final := by
  rcases noteStatement_cases settings room statement result machine with
    ⟨other, heq, hunchanged⟩ | ⟨reason, -, -, heq⟩
  · obtain ⟨-, rfl⟩ := Outcome.done.inj (heq.symm.trans hnote)
    exact hunchanged
  · cases heq.symm.trans hnote

/-- The statements of a program go on behind those that have gone on. -/
theorem programResult_of_passes {frame : FrameId} {before : List Stmt}
    (hbefore : Passes (executeTraced settings frame) (ends · = false) before machine after)
    (result : Option Value) :
    ∃ found, ∀ rest, programResult settings frame result (before ++ rest) machine =
      programResult settings frame found rest after := by
  induction hbefore generalizing result with
  | nil => exact ⟨result, fun _ ↦ rfl⟩
  | cons hrun hends _ ih =>
    obtain ⟨middle, hexecute, hnote⟩ := executeTraced_eq_done_iff.mp hrun
    obtain ⟨found, hfound⟩ := ih _
    exact ⟨found, fun rest ↦ (programResult_cons result hexecute hnote hends).trans (hfound rest)⟩

/-- The line that traces a failed statement cannot be written, and stops the program behind it. -/
def Activation.StopsBehind (settings : Settings) (failure : Failure) (after : Machine)
    (outer inner : Activation) : Prop :=
  ∃ statements, outer.task = .program statements ∧ ∃ statement ∈ statements,
    inner.task = .execute statement ∧ 1 ≤ settings.verbosity ∧
      ∃ reason, statementObstacle? statement (some (.error failure)) (some settings.depthLimit) =
          some reason ∧
        programResult settings outer.frame none statements outer.machine = .halted reason after

/-- Each activation but the program passes an error on and changes nothing. The program has a trace
to write before, and may be stopped there. -/
theorem Starts.fails (hstarts : Starts settings outer inner)
    (hinner : inner.Fails settings failure after) :
    (∃ final, outer.Fails settings failure final ∧ after.Unchanged final) ∨
      outer.StopsBehind settings failure after inner := by
  have hpassed (h : outer.Fails settings failure after) :
      (∃ final, outer.Fails settings failure final ∧ after.Unchanged final) ∨
        outer.StopsBehind settings failure after inner := .inl ⟨after, h, .refl after⟩
  cases hstarts with
  | @statement before rest statement depth frame machine middle hbefore =>
    have hexecute : execute settings settings.depthLimit statement frame middle =
      .done (some (.error failure)) after := hinner
    rcases noteStatement_cases settings (some settings.depthLimit) statement (some (.error failure))
      after with ⟨final, hnote, hunchanged⟩ | ⟨reason, hlevel, hobstacle, hnote⟩
    · have htraced := executeTraced_eq_done_iff.mpr ⟨after, hexecute, hnote⟩
      refine .inl ⟨final, programResult_eq_error_iff.mpr ?_, hunchanged⟩
      exact ⟨before, statement, rest, middle, rfl, hbefore, .inl htraced⟩
    · have hmem : statement ∈ before ++ statement :: rest := List.mem_append_right _ (.head _)
      refine .inr ⟨_, rfl, statement, hmem, rfl, hlevel, reason, hobstacle, ?_⟩
      obtain ⟨found, hfound⟩ := programResult_of_passes hbefore none
      rw [hfound, programResult]
      show Run.bind _ _ middle = _
      rw [Run.bind, hexecute]
      show Run.bind _ _ after = _
      rw [Run.bind, hnote]
  | expression => exact hpassed (execute_expression_eq_error_iff.mpr hinner)
  | returned => exact hpassed (execute_returning_eq_error_iff.mpr hinner)
  | bound => exact hpassed (execute_binding_eq_error_iff.mpr hinner)
  | block => exact hpassed (by rwa [Activation.Fails, execute])
  | blockStatement hbefore =>
    exact hpassed (executeEach_eq_error_iff.mpr ⟨_, _, _, _, rfl, hbefore, hinner⟩)
  | operand => exact hpassed (evaluate_unary_eq_error_iff.mpr (.inl hinner))
  | left => exact hpassed (evaluate_binary_eq_error_iff.mpr (.inl hinner))
  | right hleft hfound =>
    exact hpassed (evaluate_binary_eq_error_iff.mpr (.inr ⟨_, _, hleft, hfound, .inl hinner⟩))
  | indexed => exact hpassed (evaluate_index_eq_error_iff.mpr (.inl hinner))
  | place hleft hfound =>
    exact hpassed (evaluate_index_eq_error_iff.mpr (.inr ⟨_, _, hleft, hfound, .inl hinner⟩))
  | array => exact hpassed (evaluate_array_eq_error_iff.mpr hinner)
  | item hbefore =>
    exact hpassed (evaluateEach_eq_error_iff.mpr ⟨_, _, _, _, rfl, hbefore, hinner⟩)
  | hash => exact hpassed (by rwa [Activation.Fails, evaluate])
  | key hbefore =>
    exact hpassed (hashLiteral_eq_error_iff.mpr ⟨_, _, _, _, rfl, hbefore, .inl hinner⟩)
  | value hbefore hkey hfound =>
    exact hpassed (hashLiteral_eq_error_iff.mpr
      ⟨_, _, _, _, rfl, hbefore, .inr (.inr ⟨_, _, hkey, hfound, hinner⟩)⟩)
  | conditional => exact hpassed (by rwa [Activation.Fails, evaluate])
  | condition => exact hpassed (conditional_eq_error_iff.mpr (.inl hinner))
  | consequence hcondition hfound hnote htruthy =>
    exact hpassed (conditional_eq_error_iff.mpr
      (.inr ⟨_, _, hcondition, hfound, _, hnote, .inl ⟨htruthy, hinner⟩⟩))
  | alternative hcondition hfound hnote htruthy =>
    exact hpassed (conditional_eq_error_iff.mpr
      (.inr ⟨_, _, hcondition, hfound, _, hnote, .inr ⟨htruthy, _, rfl, hinner⟩⟩))
  | call => exact hpassed (by rwa [Activation.Fails, evaluate])
  | callee => exact hpassed (call_eq_error_iff.mpr (.inl hinner))
  | argument hcallee hopen hpairs hbefore =>
    have hbind := bindArguments_eq_some_iff.mpr ⟨_, _, _, _, hpairs, hbefore, hinner⟩
    exact hpassed (call_eq_error_iff.mpr (.inr (.inl ⟨_, _, hcallee, _, _, hopen, .inl hbind⟩)))
  | body hcallee hopen hbind hnote =>
    exact hpassed (call_eq_error_iff.mpr (.inr (.inl ⟨_, _, hcallee, _, _, hopen,
      .inr ⟨_, hbind, _, _, hnote, hinner, .inl rfl⟩⟩)))
  | arguments hcallee =>
    exact hpassed (call_eq_error_iff.mpr (.inr (.inr (.inl ⟨_, _, hcallee, .inl hinner⟩))))

/-! ### Where an error comes from -/

/-- The error has come from an activation that was started, or is made here. -/
def Activation.Explains (settings : Settings) (failure : Failure) (after : Machine)
    (outer : Activation) : Prop :=
  (∃ inner, Starts settings outer inner ∧ inner.Fails settings failure after) ∨
    Produces settings outer failure after

variable {depth : Nat} {frame : FrameId}

theorem explains_evaluate {expression : Expr}
    (h : evaluate settings depth expression frame machine = .done (.error failure) final) :
    Activation.Explains settings failure final ⟨.evaluate expression, depth, frame, machine⟩ := by
  cases depth with
  | zero =>
    rw [evaluate] at h
    cases h
  | succ depth =>
    cases expression with
    | integer | string | boolean =>
      rw [evaluate] at h
      cases (Run.pure_eq_done_iff.mp h).1
    | function origin parameters body =>
      rw [evaluate] at h
      cases h
    | identifier name =>
      obtain ⟨rfl, hget | ⟨hget, hbuiltin, rfl⟩⟩ := evaluate_identifier_eq_error_iff.mp h
      · exact .inr (.stored hget)
      · exact .inr (.undefined hget hbuiltin)
    | unary origin operator right =>
      rcases evaluate_unary_eq_error_iff.mp h with hright | ⟨found, hright, hfound, hresult⟩
      · exact .inl ⟨_, .operand, hright⟩
      · exact .inr (.unary hright hfound hresult)
    | binary origin left operator right =>
      rcases evaluate_binary_eq_error_iff.mp h with
        hleft | ⟨a, middle, hleft, ha, hright | ⟨b, hright, hb, hresult⟩⟩
      · exact .inl ⟨_, .left, hleft⟩
      · exact .inl ⟨_, .right hleft ha, hright⟩
      · exact .inr (.binary hleft ha hright hb hresult)
    | index origin left place =>
      rcases evaluate_index_eq_error_iff.mp h with
        hleft | ⟨a, middle, hleft, ha, hplace | ⟨b, hplace, hb, hresult⟩⟩
      · exact .inl ⟨_, .indexed, hleft⟩
      · exact .inl ⟨_, .place hleft ha, hplace⟩
      · exact .inr (.index hleft ha hplace hb hresult)
    | conditional origin condition consequence alternative =>
      rw [evaluate] at h
      exact .inl ⟨_, .conditional, h⟩
    | call origin callee arguments =>
      rw [evaluate] at h
      exact .inl ⟨_, .call, h⟩
    | array origin elements =>
      exact .inl ⟨_, .array, evaluate_array_eq_error_iff.mp h⟩
    | hash origin pairs =>
      rw [evaluate] at h
      exact .inl ⟨_, .hash, h⟩

theorem explains_conditional {condition : Expr} {consequence : Block} {alternative : Option Block}
    (h : conditional settings depth condition consequence alternative frame machine =
      .done (.error failure) final) :
    Activation.Explains settings failure final
      ⟨.conditional condition consequence alternative, depth, frame, machine⟩ := by
  cases depth with
  | zero =>
    rw [conditional] at h
    cases h
  | succ depth =>
    rcases conditional_eq_error_iff.mp h with hcondition | ⟨found, middle, hcondition, hfound,
      noted, hnote, ⟨htruthy, hbranch⟩ | ⟨htruthy, block, hblock, hbranch⟩⟩
    · exact .inl ⟨_, .condition, hcondition⟩
    · exact .inl ⟨_, .consequence hcondition hfound hnote htruthy, hbranch⟩
    · obtain rfl : alternative = some block := hblock
      exact .inl ⟨_, .alternative hcondition hfound hnote htruthy, hbranch⟩

theorem explains_call {callee : Expr} {arguments : List Expr}
    (h : call settings depth callee arguments frame machine = .done (.error failure) final) :
    Activation.Explains settings failure final ⟨.call callee arguments, depth, frame, machine⟩ := by
  cases depth with
  | zero =>
    rw [call] at h
    cases h
  | succ depth =>
    rcases call_eq_error_iff.mp h with hcallee |
      ⟨closure, middle, hcallee, inner, opened, hopen, hbind |
        ⟨bound, hbind, noted, result, hnote, hbody, rfl | rfl⟩⟩ |
      ⟨builtin, middle, hcallee, hvalues | ⟨values, after, noted, hvalues, hnote, hresult⟩⟩ |
      ⟨found, hcallee, hfound, rfl⟩
    · exact .inl ⟨_, .callee, hcallee⟩
    · obtain ⟨before, pair, rest, reached, hpairs, hbefore, hargument⟩ :=
        bindArguments_eq_some_iff.mp hbind
      exact .inl ⟨_, .argument hcallee hopen hpairs hbefore, hargument⟩
    · exact .inl ⟨_, .body hcallee hopen hbind hnote, hbody⟩
    · exact .inr (.unwrapped hcallee hopen hbind hnote hbody)
    · exact .inl ⟨_, .arguments hcallee, hvalues⟩
    · exact .inr (.builtin hcallee hvalues hnote hresult)
    · exact .inr (.uncallable hcallee hfound)

theorem explains_hashLiteral {pairs : List (Expr × Expr)}
    (h : hashLiteral settings depth pairs frame machine = .done (.error failure) final) :
    Activation.Explains settings failure final ⟨.hashLiteral pairs, depth, frame, machine⟩ := by
  cases depth with
  | zero =>
    rw [hashLiteral] at h
    cases h
  | succ depth =>
    obtain ⟨before, pair, rest, middle, rfl, hbefore, hkey | ⟨found, hkey, hfound, hnone, hresult⟩ |
      ⟨found, after, hkey, hfound, hvalue⟩⟩ := hashLiteral_eq_error_iff.mp h
    · exact .inl ⟨_, .key hbefore, hkey⟩
    · exact .inr (.key hbefore hkey hfound hnone hresult)
    · exact .inl ⟨_, .value hbefore hkey hfound, hvalue⟩

theorem explains_evaluateEach {expressions : List Expr}
    (h : evaluateEach settings depth expressions frame machine = .done (.error failure) final) :
    Activation.Explains settings failure final
      ⟨.evaluateEach expressions, depth, frame, machine⟩ := by
  cases depth with
  | zero =>
    rw [evaluateEach] at h
    cases h
  | succ depth =>
    obtain ⟨before, expression, rest, middle, rfl, hbefore, hitem⟩ :=
      evaluateEach_eq_error_iff.mp h
    exact .inl ⟨_, .item hbefore, hitem⟩

theorem explains_execute {statement : Stmt}
    (h : execute settings depth statement frame machine = .done (some (.error failure)) final) :
    Activation.Explains settings failure final ⟨.execute statement, depth, frame, machine⟩ := by
  cases depth with
  | zero =>
    rw [execute] at h
    cases h
  | succ depth =>
    cases statement with
    | expression => exact .inl ⟨_, .expression, execute_expression_eq_error_iff.mp h⟩
    | returning => exact .inl ⟨_, .returned, execute_returning_eq_error_iff.mp h⟩
    | binding => exact .inl ⟨_, .bound, execute_binding_eq_error_iff.mp h⟩
    | block =>
      rw [execute] at h
      exact .inl ⟨_, .block, h⟩

theorem explains_executeEach {statements : List Stmt}
    (h : executeEach settings depth statements frame machine =
      .done (some (.error failure)) final) :
    Activation.Explains settings failure final
      ⟨.executeEach statements, depth, frame, machine⟩ := by
  cases depth with
  | zero =>
    rw [executeEach] at h
    cases h
  | succ depth =>
    obtain ⟨before, statement, rest, middle, rfl, hbefore, hstatement⟩ :=
      executeEach_eq_error_iff.mp h
    exact .inl ⟨_, .blockStatement hbefore, hstatement⟩

/-- The program writes the trace of its last statement behind the moment of the error. -/
theorem explains_program {statements : List Stmt}
    (h : programResult settings frame none statements machine =
      .done (some (.error failure)) final) :
    ∃ after, after.Unchanged final ∧
      Activation.Explains settings failure after ⟨.program statements, depth, frame, machine⟩ := by
  obtain ⟨before, statement, rest, middle, rfl, hbefore, htraced | htraced⟩ :=
    programResult_eq_error_iff.mp h
  · obtain ⟨after, hexecute, hnote⟩ := executeTraced_eq_done_iff.mp htraced
    exact ⟨after, unchanged_noteStatement hnote, .inl ⟨_, .statement hbefore, hexecute⟩⟩
  · obtain ⟨after, hexecute, hnote⟩ := executeTraced_eq_done_iff.mp htraced
    exact ⟨after, unchanged_noteStatement hnote, .inr (.unwrappedLast hbefore hexecute)⟩

theorem Activation.Fails.explained (h : outer.Fails settings failure final) :
    ∃ after, after.Unchanged final ∧ outer.Explains settings failure after := by
  obtain ⟨task, depth, frame, machine⟩ := outer
  cases task with
  | program => exact explains_program h
  | execute => exact ⟨final, .refl final, explains_execute h⟩
  | executeEach => exact ⟨final, .refl final, explains_executeEach h⟩
  | evaluate => exact ⟨final, .refl final, explains_evaluate h⟩
  | evaluateEach => exact ⟨final, .refl final, explains_evaluateEach h⟩
  | conditional => exact ⟨final, .refl final, explains_conditional h⟩
  | call => exact ⟨final, .refl final, explains_call h⟩
  | hashLiteral => exact ⟨final, .refl final, explains_hashLiteral h⟩

/-- How many activations may still follow one another. -/
def Activation.rank (settings : Settings) : Activation → Nat
  | ⟨.program _, _, _, _⟩ => settings.depthLimit + 1
  | activation => activation.depth

theorem Starts.rank_lt (h : Starts settings outer inner) :
    inner.rank settings < outer.rank settings := by
  cases h <;> exact Nat.lt_succ_self _

/-- Along the activations that an error has passed there is one that has produced it. -/
theorem Activation.Fails.exists_origin (h : outer.Fails settings failure final) :
    ∃ origin after, Relation.ReflTransGen (Starts settings) outer origin ∧
      Produces settings origin failure after ∧ after.Unchanged final := by
  induction hrank : outer.rank settings using Nat.strong_induction_on generalizing outer final with
  | _ rank ih =>
    obtain ⟨middle, hmiddle, ⟨inner, hstarts, hinner⟩ | hproduces⟩ := h.explained
    · obtain ⟨origin, after, hchain, hproduces, hafter⟩ :=
        ih _ (hrank ▸ hstarts.rank_lt) hinner rfl
      exact ⟨origin, after, .head hstarts hchain, hproduces, hafter.trans hmiddle⟩
    · exact ⟨outer, middle, .refl, hproduces, hmiddle⟩

/-! ### Programs -/

/-- Only the program itself is started by nothing. -/
theorem Starts.task_ne_program (h : Starts settings outer inner) (statements : List Stmt) :
    inner.task ≠ .program statements := by
  cases h <;> exact nofun

/-- Inside of a program an error is passed on along a whole chain of activations. -/
theorem Activation.Fails.of_chain (hchain : Relation.ReflTransGen (Starts settings) outer inner)
    (houter : ∀ statements, outer.task ≠ .program statements)
    (hinner : inner.Fails settings failure after) :
    ∃ final, outer.Fails settings failure final ∧ after.Unchanged final := by
  induction hchain using Relation.ReflTransGen.head_induction_on with
  | refl => exact ⟨after, hinner, .refl after⟩
  | head hstarts _ ih =>
    obtain ⟨middle, hmiddle, hunchanged⟩ := ih hstarts.task_ne_program
    rcases hstarts.fails hmiddle with ⟨final, hfinal, hunchanged'⟩ | ⟨statements, hprogram, -⟩
    · exact ⟨final, hfinal, hunchanged.trans hunchanged'⟩
    · exact absurd hprogram (houter statements)

end Evaluation

open Evaluation

/-- The activation of a program. -/
def Program.activation (settings : Settings) (program : Program) (frame : FrameId)
    (machine : Machine) : Activation :=
  ⟨.program program.statements, settings.depthLimit, frame, machine⟩

variable {settings : Settings} {program : Program} {frame : FrameId} {machine after : Machine}
  {failure : Failure}

/-- The whole program ends with an error that occurs anywhere inside of it, unless it is stopped by
the line that traces the statement of the error. -/
theorem Program.run_of_fails {inner : Activation}
    (hchain : Relation.ReflTransGen (Starts settings) (program.activation settings frame machine)
      inner) (hinner : inner.Fails settings failure after) :
    ∃ final, after.Unchanged final ∧
      (program.run settings frame machine = .done (some (.error failure)) final ∨
        1 ≤ settings.verbosity ∧ ∃ statement ∈ program.statements, ∃ reason,
          statementObstacle? statement (some (.error failure)) (some settings.depthLimit) =
              some reason ∧
            program.run settings frame machine =
              (Outcome.halted reason final).concluded settings) := by
  have hdone {final : Machine}
      (h : (program.activation settings frame machine).Fails settings failure final) :
      program.run settings frame machine = .done (some (.error failure)) final := by
    have hresult : programResult settings frame none program.statements machine = _ := h
    rw [Program.run_eq_concluded, hresult]
    rfl
  rcases hchain.cases_head with rfl | ⟨first, hstarts, hchain⟩
  · exact ⟨after, .refl after, .inl (hdone hinner)⟩
  obtain ⟨middle, hmiddle, hunchanged⟩ := hinner.of_chain hchain hstarts.task_ne_program
  rcases hstarts.fails hmiddle with ⟨final, hfinal, hunchanged'⟩ |
    ⟨statements, hprogram, statement, hmem, -, hlevel, reason, hobstacle, hresult⟩
  · exact ⟨final, hunchanged.trans hunchanged', .inl (hdone hfinal)⟩
  · obtain rfl : program.statements = statements := Task.program.inj hprogram
    have hresult : programResult settings frame none program.statements machine = _ := hresult
    refine ⟨middle, hunchanged, .inr ⟨hlevel, statement, hmem, reason, hobstacle, ?_⟩⟩
    rw [Program.run_eq_concluded, hresult]

/-- An activation ends with the error of any that it starts, and so does the program with the error
of any inside of it, without printing or binding anything more. Only where statements are traced,
and something stands in the way of the line for the one that has failed (a literal without a text,
or a lack of nested steps), is the program stopped there, and nothing more is printed or bound
either. Hence an error that is the result of a program was produced inside of it, or there were too
many nested steps, and the output and the bindings are those of that moment. -/
theorem errors_are_absorbed (settings : Settings) :
    (∀ (outer inner : Activation) (failure : Failure) (after : Machine),
      Starts settings outer inner → inner.Fails settings failure after →
        (∃ final, outer.Fails settings failure final ∧ after.Unchanged final) ∨
          outer.StopsBehind settings failure after inner) ∧
      ∀ (program : Program) (frame : FrameId) (machine : Machine) (failure : Failure),
        (∀ (inner : Activation) (after : Machine),
          Relation.ReflTransGen (Starts settings) (program.activation settings frame machine)
            inner → inner.Fails settings failure after → ∃ final, after.Unchanged final ∧
              (program.run settings frame machine = .done (some (.error failure)) final ∨
                1 ≤ settings.verbosity ∧ ∃ statement ∈ program.statements, ∃ reason,
                  statementObstacle? statement (some (.error failure))
                      (some settings.depthLimit) = some reason ∧
                    program.run settings frame machine =
                      (Outcome.halted reason final).concluded settings)) ∧
        ∀ final, program.run settings frame machine = .done (some (.error failure)) final →
          (∃ origin after,
            Relation.ReflTransGen (Starts settings) (program.activation settings frame machine)
              origin ∧ Produces settings origin failure after ∧ after.Unchanged final) ∨
          ∃ after, programResult settings frame none program.statements machine =
              .halted .depth after ∧ failure = ⟨.depthExceeded, ""⟩ ∧ after.Unchanged final := by
  refine ⟨fun outer inner failure after ↦ Starts.fails, fun program frame machine failure ↦
    ⟨fun inner after ↦ Program.run_of_fails, fun final hrun ↦ ?_⟩⟩
  rw [Program.run_eq_concluded] at hrun
  cases hresult : programResult settings frame none program.statements machine with
  | done result after =>
    rw [hresult] at hrun
    exact .inl (Activation.Fails.exists_origin
      (show (program.activation settings frame machine).Fails settings failure final from
        hresult.trans hrun))
  | halted reason after =>
    rw [hresult] at hrun
    cases reason with
    | nonText literal => cases hrun
    | depth =>
      obtain ⟨heq, rfl⟩ := Outcome.done.inj hrun
      exact .inr ⟨after, rfl, (Value.error.inj (Option.some.inj heq)).symm, rfl, rfl⟩

/-- An unknown name between the elements of an array, whose neighbours print. -/
theorem errors_are_absorbed_of_unknown_name :
    let program := (Program.ofSource
      "puts(1); let a = [puts(2), missing, puts(3)]; puts(4)").program
    let outcome := program.run {} topFrame Machine.start
    outcome = .done (some (.error ⟨.undefinedIdentifier, "missing"⟩)) outcome.machine ∧
      outcome.machine.output = #["1", "2"] ∧
        ((∃ origin after,
          Relation.ReflTransGen (Starts {}) (program.activation {} topFrame Machine.start) origin ∧
            Produces {} origin ⟨.undefinedIdentifier, "missing"⟩ after ∧
              after.Unchanged outcome.machine) ∨
          ∃ after, programResult {} topFrame none program.statements Machine.start =
              .halted .depth after ∧
            (⟨.undefinedIdentifier, "missing"⟩ : Failure) = ⟨.depthExceeded, ""⟩ ∧
              after.Unchanged outcome.machine) := by
  intro program outcome
  have hrun : outcome = .done (some (.error ⟨.undefinedIdentifier, "missing"⟩)) outcome.machine :=
    Outcome.eq_done_of_failure? (by decide +kernel)
  exact ⟨hrun, by decide +kernel,
    ((errors_are_absorbed {}).2 program topFrame Machine.start _).2 _ hrun⟩

/-- The error of a statement is not passed on when its trace is stopped by a literal whose token has
a truth value in the place of its text. -/
theorem error_is_lost_at_literal_without_text :
    let settings : Settings := { verbosity := 1 }
    let statement : Stmt := .expression ⟨.minus, .string "-"⟩
      (.unary ⟨.minus, .string "-"⟩ "-" (.boolean ⟨.trueWord, .boolean true⟩ true))
    let outer := Program.activation settings ⟨[statement]⟩ topFrame Machine.start
    let inner : Activation := ⟨.execute statement, settings.depthLimit, topFrame, Machine.start⟩
    Starts settings outer inner ∧
      inner.Fails settings ⟨.unknownUnaryOperator, "-Boolean"⟩ Machine.start ∧
        ∀ failure final, ¬ outer.Fails settings failure final := by
  intro settings statement outer inner
  refine ⟨?_, ?_, fun failure final hfails ↦ ?_⟩
  · show Starts settings ⟨.program ([] ++ statement :: []), _, _, _⟩ _
    exact .statement .nil
  · show execute settings settings.depthLimit statement topFrame Machine.start = _
    simp only [settings, statement]
    cbv
  · have hstopped : programResult settings topFrame none [statement] Machine.start =
      .halted (.nonText (.boolean true)) Machine.start := by
      simp only [settings, statement]
      cbv
    cases hstopped.symm.trans hfails

/-- The line for a statement takes more nested steps than its evaluation, so it alone may reach the
limit and lose the error. -/
example :
    let program : Program := ⟨[.expression default (.identifier ⟨default, "missing"⟩)]⟩
    (program.run { depthLimit := 3 } topFrame Machine.start).failure? =
        some ⟨.undefinedIdentifier, "missing"⟩ ∧
      (program.run { depthLimit := 3, verbosity := 1 } topFrame Machine.start).failure? =
        some ⟨.depthExceeded, ""⟩ := by
  decide +kernel

end MonkeyLang
