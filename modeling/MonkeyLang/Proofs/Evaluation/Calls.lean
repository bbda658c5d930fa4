import Mathlib.Tactic
import MonkeyLang.Proofs.Evaluation.Correspondence
import MonkeyLang.Proofs.Evaluation.Frames

/-!
# Arguments of a call

A call opens the frame of its function before it evaluates the arguments, and binds each parameter
in it as soon as there is a value. Arguments may print, bind names of the caller, make functions and
call functions, the called one among them, while that frame is half filled. Still the call gives
what one gets by first evaluating the arguments, and only then opening a frame with all bindings
(`callAfterwards`), if there was no error among them.

While the arguments are evaluated, the frame of the call has the number `n` of the next frame at
that time. Nothing refers to it, so the evaluation is the one without that frame, with every new
frame one further (`skipping n`). When the last value is there, the frame holds what a frame opened
only now would hold; in the other order it has the number `last`, and from then on the two differ in
that frame `last` of the one is frame `n` of the other (`bringing n last`). If an argument fails,
the frame of the call is left behind, and nothing can reach it.
-/

set_option autoImplicit false

namespace MonkeyLang

/-! ### Other numbers for the frames of a call -/

/-- The number `n` is left out, and all numbers from it on are one further. -/
def skipping (n frame : Nat) : Nat :=
  if frame < n then frame else frame + 1

/-- The number `last` becomes `n`, and all numbers in between are one further. -/
def bringing (n last frame : Nat) : Nat :=
  if frame < n then frame
  else if frame < last then frame + 1
  else if frame = last then n
  else frame

variable {n last : Nat}

theorem skipping_of_lt {frame : Nat} (h : frame < n) : skipping n frame = frame :=
  if_pos h

theorem skipping_of_le {frame : Nat} (h : n ≤ frame) : skipping n frame = frame + 1 :=
  if_neg (not_lt.mpr h)

theorem skipping_ne (n frame : Nat) : skipping n frame ≠ n := by
  unfold skipping
  split_ifs <;> omega

theorem skipping_injective (n : Nat) : Function.Injective (skipping n) := by
  intro frame other heq
  unfold skipping at heq
  split_ifs at heq <;> omega

theorem bringing_of_lt {frame : Nat} (h : frame < n) : bringing n last frame = frame :=
  if_pos h

theorem bringing_last (h : n ≤ last) : bringing n last last = n := by
  rw [bringing, if_neg (not_lt.mpr h), if_neg (lt_irrefl last), if_pos rfl]

theorem bringing_of_gt (h : n ≤ last) {frame : Nat} (hframe : last < frame) :
    bringing n last frame = frame := by
  unfold bringing
  split_ifs <;> omega

theorem bringing_injective (h : n ≤ last) : Function.Injective (bringing n last) := by
  intro frame other heq
  unfold bringing at heq
  split_ifs at heq <;> omega

/-- The frames that there were before are not affected by the last one. -/
theorem skipping_eq_bringing {frame : Nat} (h : frame < last) :
    skipping n frame = bringing n last frame := by
  unfold skipping bringing
  split_ifs <;> omega

/-! ### The frame of a call -/

namespace Scopes

variable {scopes scopes' : Scopes}

/-- A frame that nothing refers to is left out. -/
theorem WellFormed.embeds_newFrame (h : scopes.WellFormed) (outer : Option FrameId) :
    scopes.Embeds (skipping scopes.frames.size) (scopes.newFrame outer).2 where
  injective := skipping_injective _
  frames frame := by
    have hagree : ∀ old < scopes.frames.size, skipping scopes.frames.size old = id old :=
      fun old hold ↦ skipping_of_lt hold
    rw [h.renumber_congr hagree, funext Frame.renumber_id, Option.map_id']
    by_cases hframe : frame < scopes.frames.size
    · rw [skipping_of_lt hframe, getElem?_newFrame outer hframe]
    · have hle := not_lt.mp hframe
      rw [skipping_of_le hle, Array.getElem?_eq_none hle, Array.getElem?_eq_none]
      rw [size_newFrame]
      exact Nat.succ_le_succ hle
  fresh more := by
    rw [skipping_of_le (Nat.le_add_right _ _), size_newFrame, Nat.add_right_comm]
  size_le := by
    rw [size_newFrame]
    exact Nat.le_succ _

/-- The frame that was left out is, with what it holds by now, the one that is opened last in the
other order. -/
theorem Embeds.push (h : scopes.Embeds (skipping n) scopes') (hformed : scopes.WellFormed)
    (hn : n ≤ scopes.frames.size) {here : Frame}
    (houter : ∀ enclosing ∈ here.outer, enclosing < scopes.frames.size)
    (hbindings : ∀ binding ∈ here.bindings, binding.2.All (Value.IsFormed scopes.frames.size))
    (hhere : scopes'.frames[n]? = some (here.renumber (skipping n))) :
    Embeds (bringing n scopes.frames.size) ⟨scopes.frames.push here⟩ scopes' := by
  have hsize : scopes'.frames.size = scopes.frames.size + 1 := by
    rw [← skipping_of_le hn]
    exact (h.fresh 0).symm
  have hagree : ∀ old < scopes.frames.size, skipping n old = bringing n scopes.frames.size old :=
    fun old hold ↦ skipping_eq_bringing hold
  refine ⟨bringing_injective hn, fun frame ↦ ?_, fun more ↦ ?_, ?_⟩
  · rw [Array.getElem?_push]
    rcases lt_trichotomy frame scopes.frames.size with hlt | rfl | hgt
    · rw [if_neg hlt.ne, ← hagree frame hlt, h.frames, hformed.renumber_congr hagree]
    · rw [if_pos rfl, bringing_last hn, hhere, Frame.renumber_congr hagree hbindings houter]
      rfl
    · rw [if_neg hgt.ne', bringing_of_gt hn hgt, Array.getElem?_eq_none hgt.le,
        Array.getElem?_eq_none]
      · rfl
      · rwa [hsize]
  · rw [Array.size_push, hsize, bringing_of_gt hn (by omega)]
  · rw [Array.size_push, hsize]

end Scopes

/-! ### Evaluating first, binding afterwards -/

/-- Opens a frame that has bindings from the start. -/
def Run.openFrameWith (outer : FrameId) (bindings : List (String × Value)) : Run FrameId :=
  fun machine ↦ .done machine.scopes.frames.size
    { machine with scopes := ⟨machine.scopes.frames.push { bindings, outer := some outer }⟩ }

namespace Evaluation

/-- The bindings of parameters to values; of values for the same name the last one counts. -/
def parameterBindings (parameters : List Identifier) (values : List Value) :
    List (String × Value) :=
  Entries.putAll ((parameters.map (·.value)).zip values) []

/-- The call of a function whose parameters are bound when all arguments that there are parameters
for have been evaluated. -/
def callAfterwards (settings : Settings) (depth : Nat) (callee : Expr) (closure : Closure)
    (arguments : List Expr) (frame : FrameId) : Run Value := do
  match ← evaluateEach settings (depth + 1) (arguments.take closure.parameters.length) frame with
  | .error failure => return .error failure
  | .ok values =>
    let inner ← Run.openFrameWith closure.frame (parameterBindings closure.parameters values)
    noteCall settings (some depth) callee arguments.length
    match ← execute settings depth (.block closure.body) inner with
    | some (.returned value) => return value
    | some value => return value
    | none => return .null

variable {α : Type} {ρ : FrameId → FrameId} {settings : Settings} {depth size : Nat}
  {machine machine' : Machine}

/-- The arguments have been evaluated in the one run, and evaluated and bound in the other. -/
inductive ArgumentsBound (ρ : FrameId → FrameId) (target : FrameId) (names : List String)
    (here : Frame) (size : Nat) :
    Outcome (Except Failure (List Value)) → Outcome (Option Failure) → Prop
  | failed {failure : Failure} {machine machine' : Machine} (hmatches : machine.Matches ρ machine')
    (hsize : size ≤ machine.scopes.frames.size) :
    ArgumentsBound ρ target names here size (.done (.error failure) machine)
      (.done (some failure) machine')
  | done {values : List Value} {machine machine' : Machine} (hmatches : machine.Matches ρ machine')
    (hsize : size ≤ machine.scopes.frames.size)
    (hvalues : ∀ value ∈ values, value.All (Value.IsFormed machine.scopes.frames.size))
    (htarget : machine'.scopes.frames[target]? = some { here with
      bindings := Entries.putAll (names.zip (values.map (Value.renumber ρ))) here.bindings }) :
    ArgumentsBound ρ target names here size (.done (.ok values) machine) (.done none machine')
  | halted {halt : Halt} {machine machine' : Machine} (hmatches : machine.Matches ρ machine')
    (hsize : size ≤ machine.scopes.frames.size) :
    ArgumentsBound ρ target names here size (.halted halt machine) (.halted halt machine')

theorem ArgumentsBound.cons {target : FrameId} {name : String} {names : List String} {here : Frame}
    {grown : Nat} {found : Value} {others : Run (Except Failure (List Value))}
    {outcome : Outcome (Option Failure)}
    (h : ArgumentsBound ρ target names (here.set name (found.renumber ρ)) grown (others machine)
      outcome)
    (hgrown : size ≤ grown) (hfound : found.All (Value.IsFormed grown)) :
    ArgumentsBound ρ target (name :: names) here size
      ((others >>= fun result ↦
        match result with
        | .error failure => pure (.error failure)
        | .ok found' => pure (.ok (found :: found'))) machine) outcome := by
  show ArgumentsBound _ _ _ _ _ (Run.bind others _ machine) outcome
  unfold Run.bind
  revert h
  generalize others machine = first
  rintro (⟨hmatches, hsize⟩ | ⟨hmatches, hsize, hvalues, htarget⟩ | ⟨hmatches, hsize⟩)
  · exact .failed hmatches (hgrown.trans hsize)
  · refine .done hmatches (hgrown.trans hsize) ?_ htarget
    exact List.forall_mem_cons.mpr ⟨Value.formed_mono hsize hfound, hvalues⟩
  · exact .halted hmatches (hgrown.trans hsize)

/-- The frame of the call is one that no argument changes and that is not embedded. -/
theorem argumentsBound {evaluate evaluate' : α → Run Value} {target : FrameId}
    {parameters : List Identifier} {arguments : List α} {here : Frame}
    (htarget : ∀ frame, ρ frame ≠ target)
    (hfollowed : ∀ argument ∈ arguments,
      (evaluate argument).FollowedBy ρ .single size (evaluate' argument))
    (hkept : ∀ argument ∈ arguments, ∀ before : Machine, target < before.scopes.frames.size →
      (evaluate' argument before).machine.scopes.frames[target]? =
        before.scopes.frames[target]?)
    (hsize : size ≤ machine.scopes.frames.size) (hmatches : machine.Matches ρ machine')
    (hhere : machine'.scopes.frames[target]? = some here) :
    ArgumentsBound ρ target (parameters.map (·.value)) here machine.scopes.frames.size
      (values evaluate (arguments.take parameters.length) machine)
      (bindArguments evaluate' target parameters arguments machine') := by
  induction arguments generalizing parameters machine machine' here with
  | nil =>
    cases parameters with
    | nil => exact .done hmatches le_rfl (List.forall_mem_nil _) hhere
    | cons parameter parameters => exact .done hmatches le_rfl (List.forall_mem_nil _) hhere
  | cons argument rest ih =>
    cases parameters with
    | nil => exact .done hmatches le_rfl (List.forall_mem_nil _) hhere
    | cons parameter parameters =>
      rw [List.length_cons, List.take_succ_cons, values, bindArguments, List.map_cons]
      have houtcome := hfollowed argument (.head _) machine machine' hsize hmatches
      have hframe := hkept argument (.head _) machine' (Scopes.lt_size_of_getElem? hhere)
      show ArgumentsBound _ _ _ _ _ (Run.bind (evaluate argument) _ machine)
        (Run.bind (evaluate' argument) _ machine')
      unfold Run.bind
      revert houtcome hframe
      generalize evaluate argument machine = outcome
      generalize evaluate' argument machine' = outcome'
      rintro (⟨hmiddle, hgrown, hfound⟩ | ⟨hmiddle, hgrown⟩) hframe
      · rename_i found middle middle'
        rw [Outcome.machine, hhere] at hframe
        let bound : Machine := { middle' with
          scopes := middle'.scopes.set target parameter.value (found.renumber ρ) }
        have hset : middle.Matches ρ bound :=
          { hmiddle with scopes := hmiddle.scopes.set_outside htarget _ _ }
        have hbound : bound.scopes.frames[target]? =
            some (here.set parameter.value (found.renumber ρ)) := by
          rw [Scopes.getElem?_set, if_pos rfl, hframe]
          rfl
        have hrest : ArgumentsBound ρ target (parameters.map (·.value))
            (here.set parameter.value (found.renumber ρ)) middle.scopes.frames.size
            (values evaluate (rest.take parameters.length) middle)
            (bindArguments evaluate' target parameters rest bound) :=
          ih (fun next hnext ↦ hfollowed next (.tail _ hnext))
            (fun next hnext ↦ hkept next (.tail _ hnext)) (hsize.trans hgrown) hset hbound
        cases found with
        | error failure => exact .failed hmiddle hgrown
        | _ => exact hrest.cons hgrown hfound
      · exact .halted hmiddle hgrown

/-! ### Calls of functions -/

theorem frames_kept_by_evaluate (settings : Settings) (depth : Nat) {frame target : FrameId}
    (hne : target ≠ frame) (expression : Expr) (before : Machine)
    (htarget : target < before.scopes.frames.size) :
    (evaluate settings depth expression frame before).machine.scopes.frames[target]? =
      before.scopes.frames[target]? :=
  ((writesOnlyAt settings depth).evaluate (List.Subset.refl _) _ _ before
    (.refl htarget)).invariant.others target (Nat.lt_succ_self _) hne

/-- What a call does when its callee has turned out to be a function. -/
def callClosure (settings : Settings) (depth : Nat) (callee : Expr) (closure : Closure)
    (arguments : List Expr) (frame : FrameId) : Run Value := do
  let inner ← Run.openFrame closure.frame
  match ← bindArguments (fun argument => evaluate settings depth argument frame) inner
      closure.parameters arguments with
  | some failure => return .error failure
  | none => runBody settings depth callee arguments.length closure.body inner

theorem call_eq_callClosure {callee : Expr} {closure : Closure} {arguments : List Expr}
    {frame : FrameId} {middle : Machine}
    (hcallee : evaluate settings depth callee frame machine = .done (.function closure) middle) :
    call settings (depth + 1) callee arguments frame machine =
      callClosure settings depth callee closure arguments frame middle := by
  rw [call, Run.andThen_of_done hcallee rfl]
  rfl

theorem mapValues_parameterBindings (f : Value → Value) (names : List String)
    (values : List Value) :
    Entries.putAll (names.zip (values.map f)) [] =
      Entries.mapValues f (Entries.putAll (names.zip values) []) := by
  rw [← Entries.putAll_mapValues, Entries.mapValues, ← List.zip_map_right]
  rfl

/-- When the arguments have been bound, the body runs as it does in a frame opened only now. -/
theorem openFrameWith_followedBy_runBody (settings : Settings) (depth : Nat) (callee : Expr)
    (count : Nat) (closure : Closure) {values : List Value}
    (hmatches : machine.Matches (skipping n) machine') (hn : n ≤ machine.scopes.frames.size)
    (hvalues : ∀ value ∈ values, value.All (Value.IsFormed machine.scopes.frames.size))
    (hclosure : closure.frame < n)
    (htarget : machine'.scopes.frames[n]? = some
      { bindings := Entries.putAll ((closure.parameters.map (·.value)).zip
          (values.map (Value.renumber (skipping n)))) []
        outer := some closure.frame }) :
    ((Run.openFrameWith closure.frame (parameterBindings closure.parameters values) >>= fun inner ↦
        runBody settings depth callee count closure.body inner) machine).FollowedBy
      (bringing n machine.scopes.frames.size) .single machine.scopes.frames.size
      (runBody settings depth callee count closure.body n machine') := by
  let last := machine.scopes.frames.size
  let here : Frame :=
    { bindings := parameterBindings closure.parameters values, outer := some closure.frame }
  let pushed : Machine := { machine with scopes := ⟨machine.scopes.frames.push here⟩ }
  have houter : ∀ enclosing ∈ here.outer, enclosing < last := by
    rintro enclosing ⟨⟩
    exact hclosure.trans_le hn
  have hbindings : ∀ binding ∈ here.bindings, binding.2.All (Value.IsFormed last) := by
    intro binding hmem
    rcases Entries.mem_putAll hmem with hpair | hnil
    · exact hvalues _ (List.of_mem_zip hpair).2
    · cases hnil
  have hhere : machine'.scopes.frames[n]? = some (here.renumber (skipping n)) := by
    rw [htarget, mapValues_parameterBindings, Frame.renumber, Option.map_some,
      skipping_of_lt hclosure]
    rfl
  have hpushed : pushed.Matches (bringing n last) machine' :=
    { hmatches with
      wellFormed := hmatches.wellFormed.push houter hbindings
      scopes := hmatches.scopes.push hmatches.wellFormed hn houter hbindings hhere }
  have hgrown : last < pushed.scopes.frames.size := by
    show last < (machine.scopes.frames.push here).size
    rw [Array.size_push]
    exact Nat.lt_succ_self last
  have hbody := (followedAt (bringing n last) settings depth).runBody callee count closure.body
    hgrown pushed machine' le_rfl hpushed
  rw [bringing_last hn] at hbody
  exact hbody.mono hgrown.le

theorem callAfterwards_eq (settings : Settings) (depth : Nat) (callee : Expr) (closure : Closure)
    (arguments : List Expr) (frame : FrameId) :
    callAfterwards settings depth callee closure arguments frame = (do
      match ← evaluateEach settings (depth + 1) (arguments.take closure.parameters.length)
        frame with
      | .error failure => return .error failure
      | .ok values =>
        let inner ← Run.openFrameWith closure.frame (parameterBindings closure.parameters values)
        runBody settings depth callee arguments.length closure.body inner) := by
  rw [callAfterwards]
  refine bind_congr fun evaluated ↦ ?_
  cases evaluated with
  | error failure => rfl
  | ok values =>
    refine bind_congr fun inner ↦ ?_
    rw [runBody]
    refine bind_congr fun _ ↦ bind_congr fun result ↦ ?_
    cases result with
    | none => rfl
    | some found => cases found <;> rfl

/-- From where the callee has been evaluated, the two ways to call a function differ in the numbers
of the frames above only. -/
theorem callAfterwards_followedBy_callClosure (settings : Settings) (depth : Nat) (callee : Expr)
    {closure : Closure} (arguments : List Expr) {frame : FrameId}
    (hmachine : machine.scopes.WellFormed) (hframe : frame < machine.scopes.frames.size)
    (hclosure : closure.frame < machine.scopes.frames.size) :
    ∃ ρ : FrameId → FrameId, (∀ old < machine.scopes.frames.size, ρ old = old) ∧
      (callAfterwards settings depth callee closure arguments frame machine).FollowedBy ρ .single
        machine.scopes.frames.size
        (callClosure settings depth callee closure arguments frame machine) := by
  let n := machine.scopes.frames.size
  let evaluateArgument (argument : Expr) : Run Value := evaluate settings depth argument frame
  let opened : Machine :=
    { machine with scopes := (machine.scopes.newFrame (some closure.frame)).2 }
  have hopened : machine.Matches (skipping n) opened :=
    ⟨hmachine, hmachine.embeds_newFrame _, rfl, rfl, rfl⟩
  have hargument (argument : Expr) :
      (evaluateArgument argument).FollowedBy (skipping n) .single n
        (evaluateArgument argument) := by
    have h := (followedAt (skipping n) settings depth).evaluate hframe argument
    rwa [skipping_of_lt hframe] at h
  have hbound : ArgumentsBound (skipping n) n (closure.parameters.map (·.value))
      { outer := some closure.frame } n
      (values evaluateArgument (arguments.take closure.parameters.length) machine)
      (bindArguments evaluateArgument n closure.parameters arguments opened) :=
    argumentsBound (skipping_ne n) (fun argument _ ↦ hargument argument)
      (fun argument _ ↦ frames_kept_by_evaluate settings depth hframe.ne' argument) le_rfl hopened
      (Scopes.getElem?_newFrame_size _ _)
  rw [callAfterwards_eq]
  show ∃ ρ : FrameId → FrameId, _ ∧ Outcome.FollowedBy ρ .single n
    (Run.bind (evaluateEach settings (depth + 1) _ frame) _ machine)
    (Run.bind (bindArguments evaluateArgument n closure.parameters arguments) _ opened)
  rw [evaluateEach]
  unfold Run.bind
  revert hbound
  show ArgumentsBound _ _ _ _ _ (values evaluateArgument _ machine) _ → _
  generalize values evaluateArgument _ machine = outcome
  generalize bindArguments evaluateArgument n closure.parameters arguments opened = outcome'
  rintro (⟨hmatches, hsize⟩ | ⟨hmatches, hsize, hvalues, htarget⟩ | ⟨hmatches, hsize⟩)
  · exact ⟨skipping n, fun _ ↦ skipping_of_lt, .done hmatches hsize (Value.formed_of_isPlain rfl)⟩
  · rename_i found after after'
    refine ⟨bringing n after.scopes.frames.size, fun _ ↦ bringing_of_lt, ?_⟩
    exact (openFrameWith_followedBy_runBody settings depth callee arguments.length closure hmatches
      hsize hvalues hclosure htarget).mono hsize
  · exact ⟨skipping n, fun _ ↦ skipping_of_lt, .halted hmatches hsize⟩

end Evaluation

/-- The frame of a function that occurs in the result. -/
def Outcome.Holds (outcome : Outcome Value) (frame : FrameId) : Prop :=
  ∃ found after closure, outcome = .done found after ∧ (Value.function closure).Occurs found ∧
    closure.frame = frame

/-- What can be reached from old frames, which have kept their numbers, or from the result, has a
counterpart in the run that is followed. -/
theorem Outcome.FollowedBy.reaches {ρ : FrameId → FrameId} {size old : Nat}
    {outcome outcome' : Outcome Value} (h : outcome.FollowedBy ρ .single size outcome')
    (hold : ∀ frame < old, ρ frame = frame) {frame : FrameId}
    (hframe : outcome'.machine.scopes.Reaches (fun root ↦ root < old ∨ outcome'.Holds root) frame) :
    ∃ inner, ρ inner = frame := by
  cases h with
  | halted hmatches hsize =>
    refine hmatches.scopes.reaches ?_ hframe
    rintro root (hroot | ⟨found, after, closure, heq, -, -⟩)
    · exact ⟨root, hold root hroot⟩
    · cases heq
  | done hmatches hsize hformed =>
    refine hmatches.scopes.reaches ?_ hframe
    rintro root (hroot | ⟨found, after, closure, heq, hoccurs, rfl⟩)
    · exact ⟨root, hold root hroot⟩
    · obtain ⟨rfl, -⟩ := Outcome.done.inj heq
      exact hoccurs.exists_frame

open Evaluation

/-- Let the callee of a call be a function. Then the call ends as it does when as many arguments as
there are parameters are evaluated first, and the parameters are bound afterwards in a new frame. It
prints and traces the same, and it gives the same result and leaves the same frames, up to their
numbers and up to frames that can be reached neither from the old ones nor from the result. The old
frames keep their numbers. Runs only come to calls with well-formed scopes and in a frame that
exists (`Activation.IsFormed.of_chain`). -/
theorem arguments_are_bound_as_if_afterwards (settings : Settings) (depth : Nat) (callee : Expr)
    (arguments : List Expr) (frame : FrameId) (closure : Closure) (machine middle : Machine)
    (hmachine : machine.scopes.WellFormed) (hframe : frame < machine.scopes.frames.size)
    (hcallee : evaluate settings depth callee frame machine = .done (.function closure) middle) :
    let afterwards := callAfterwards settings depth callee closure arguments frame middle
    let outcome := call settings (depth + 1) callee arguments frame machine
    ∃ ρ : FrameId → FrameId, (∀ old < machine.scopes.frames.size, ρ old = old) ∧
      afterwards.FollowedBy ρ .single machine.scopes.frames.size outcome ∧
      ∀ other, outcome.machine.scopes.Reaches
        (fun root ↦ root < machine.scopes.frames.size ∨ outcome.Holds root) other →
          ∃ inner, ρ inner = other := by
  intro afterwards outcome
  obtain ⟨hmiddle, hgrown, hfunction⟩ :=
    ((followedAt id settings depth).evaluate hframe callee).of_done hcallee le_rfl hmachine
  obtain ⟨ρ, hfixed, hfollowed⟩ := callAfterwards_followedBy_callClosure settings depth callee
    arguments hmiddle (hframe.trans_le hgrown) (Value.all_function_iff.mp hfunction)
  rw [← call_eq_callClosure hcallee] at hfollowed
  have hold : ∀ old < machine.scopes.frames.size, ρ old = old :=
    fun old hlt ↦ hfixed old (hlt.trans_le hgrown)
  exact ⟨ρ, hold, hfollowed.mono hgrown, fun _ ↦ hfollowed.reaches hold⟩

/-- With a parameter that is named twice, an argument that calls the same function, one that makes a
function, and one that there is no parameter for. -/
theorem arguments_are_bound_as_if_afterwards_in_nested_call :
    let f : Identifier := ⟨default, "f"⟩
    let x : Identifier := ⟨default, "x"⟩
    let literal : Expr := .function default [] (.mk default [.expression default (.identifier x)])
    let closure : Closure := ⟨0, [x, x], .mk default [.returning default literal], topFrame⟩
    let machine : Machine :=
      { scopes := Machine.start.scopes.set topFrame "f" (.function closure), functions := 1 }
    let arguments : List Expr :=
      [.call default (.identifier f) [literal], literal, .identifier ⟨default, "missing"⟩]
    let afterwards := callAfterwards {} 9 (.identifier f) closure arguments topFrame machine
    let outcome := call {} 10 (.identifier f) arguments topFrame machine
    machine.scopes.WellFormed ∧ topFrame < machine.scopes.frames.size ∧
      evaluate {} 9 (.identifier f) topFrame machine = .done (.function closure) machine ∧
      ∃ ρ : FrameId → FrameId, (∀ old < machine.scopes.frames.size, ρ old = old) ∧
        afterwards.FollowedBy ρ .single machine.scopes.frames.size outcome ∧
        ∀ other, outcome.machine.scopes.Reaches
          (fun root ↦ root < machine.scopes.frames.size ∨ outcome.Holds root) other →
            ∃ inner, ρ inner = other := by
  intro f x literal closure machine arguments afterwards outcome
  have hmachine : machine.scopes.WellFormed :=
    Scopes.wellFormed_start.set topFrame "f" (Value.all_function_iff.mpr Nat.one_pos)
  have hframe : topFrame < machine.scopes.frames.size := by
    rw [Scopes.size_set]
    exact Nat.one_pos
  have hcallee : evaluate {} 9 (.identifier f) topFrame machine =
      .done (.function closure) machine := by
    rw [evaluate]
    rfl
  exact ⟨hmachine, hframe, hcallee, arguments_are_bound_as_if_afterwards {} 9 (.identifier f)
    arguments topFrame closure machine machine hmachine hframe hcallee⟩

end MonkeyLang
