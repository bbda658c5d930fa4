import Mathlib.Tactic
import MonkeyLang.Proofs.Evaluation.Correspondence
import MonkeyLang.Proofs.Evaluation.ErrorFree
import MonkeyLang.Proofs.Evaluation.Integers

/-!
# Well-formed states

Programs that are run one after the other, starting with nothing, only come to well-formed states.
An activation is formed if it is started with well-formed scopes and in a frame that exists. So are
the activations that it starts (`Starts.isFormed`), and by following them one comes to every state
of a run (`Activation.IsFormed.of_chain`); the values that a formed activation gives are formed.
The next program finds what the one before has left, however that one has ended.

Functions put frames into values, and values are bound in frames, so frames may lead to one another
in circles. Only the outer frames are in order, and that is what makes every look-up end
(`Scopes.Grounded`).
-/

set_option autoImplicit false

namespace MonkeyLang

variable {α β : Type}

/-! ### Values with distinct keys -/

/-- The keys of a hash are distinct. -/
def Value.HasDistinctKeys : Value → Prop
  | .hash pairs => (Entries.keys pairs).Nodup
  | _ => True

theorem Value.IsFormed.hasDistinctKeys {size : Nat} {value : Value} (h : value.IsFormed size) :
    value.HasDistinctKeys := by
  cases value with
  | hash pairs => exact h
  | _ => trivial

/-- The bindings of all frames have distinct keys in every hash. -/
def Scopes.HaveDistinctKeys : Scopes → Prop :=
  Scopes.AllBindings (Value.All Value.HasDistinctKeys)

theorem Scopes.WellFormed.haveDistinctKeys {scopes : Scopes} (h : scopes.WellFormed) :
    scopes.HaveDistinctKeys :=
  h.bindings.mono fun _ hvalue ↦ hvalue.mono fun _ ↦ Value.IsFormed.hasDistinctKeys

/-- The invariant of runs in a frame. -/
def Scopes.FormedWith (frame : FrameId) (scopes : Scopes) : Prop :=
  scopes.WellFormed ∧ frame < scopes.frames.size

theorem Scopes.FormedWith.of_done {R : Results α} {run run' : Run α} {machine after : Machine}
    {frame : FrameId} {found : α} (h : machine.scopes.FormedWith frame)
    (hfollowed : run.FollowedBy id R machine.scopes.frames.size run')
    (hrun : run machine = .done found after) :
    after.scopes.FormedWith frame ∧ R.Formed after.scopes.frames.size found := by
  obtain ⟨hafter, hgrown, hfound⟩ := hfollowed.of_done hrun le_rfl h.1
  exact ⟨⟨hafter, h.2.trans_le hgrown⟩, hfound⟩

/-- What holds of formed results and scopes with so many frames holds at the end, with the frames
that there are then. -/
theorem Outcome.IsFormed.exists_satisfies {R : Results α} {size : Nat} {outcome : Outcome α}
    (h : outcome.IsFormed R size) {frame : FrameId} (hframe : frame < size)
    {invariant : Nat → Scopes → Prop} {property : Nat → α → Prop}
    (hinvariant : ∀ scopes, scopes.FormedWith frame → invariant scopes.frames.size scopes)
    (hproperty : ∀ count found, R.Formed count found → property count found) :
    ∃ count, outcome.Satisfies (invariant count) (property count) := by
  cases outcome with
  | done found machine =>
    exact ⟨_, hinvariant _ ⟨h.1, hframe.trans_le h.2.1⟩, hproperty _ found h.2.2⟩
  | halted halt machine => exact ⟨_, hinvariant _ ⟨h.1, hframe.trans_le h.2⟩⟩

/-! ### Runs that are put together -/

/-- A key and its value. -/
def Results.paired : Results (Value × Value) where
  renumber ρ := Prod.map (Value.renumber ρ) (Value.renumber ρ)
  Formed size pair := pair.1.All (Value.IsFormed size) ∧ pair.2.All (Value.IsFormed size)
  mono hsize := And.imp (Value.formed_mono hsize) (Value.formed_mono hsize)

namespace Evaluation

open Run

variable {ρ : FrameId → FrameId} {size : Nat} {machine middle : Machine}

theorem followedBy_evaluatePair {evaluate evaluate' : α → Run Value} {pair : α × α}
    (hkey : (evaluate pair.1).FollowedBy ρ .single size (evaluate' pair.1))
    (hvalue : (evaluate pair.2).FollowedBy ρ .single size (evaluate' pair.2)) :
    (evaluatePair evaluate pair).FollowedBy ρ .paired size (evaluatePair evaluate' pair) := by
  refine hkey.bind fun grown found hgrown hfound ↦ ?_
  refine (hvalue.mono hgrown).bind fun larger other hlarger hother ↦ ?_
  exact followedBy_pure ⟨Value.formed_mono hlarger hfound, hother⟩ rfl

theorem followedBy_bindOne {evaluate evaluate' : α → Run Value} (target : FrameId)
    {pair : Identifier × α}
    (hargument : (evaluate pair.2).FollowedBy ρ .single size (evaluate' pair.2)) :
    (bindOne evaluate target pair).FollowedBy ρ .single size
      (bindOne evaluate' (ρ target) pair) := by
  refine hargument.bind fun grown found _ hfound ↦ ?_
  refine (followedBy_setVariable target pair.1.value hfound).bind fun larger _ hlarger _ ↦ ?_
  exact followedBy_pure (Value.formed_mono hlarger hfound) rfl

theorem followedBy_executeTraced (settings : Settings) {frame : FrameId} (hframe : frame < size)
    (statement : Stmt) :
    (executeTraced settings frame statement).FollowedBy ρ .optional size
      (executeTraced settings (ρ frame) statement) := by
  refine ((followedAt ρ settings _).execute hframe statement).bind fun grown found _ hfound ↦ ?_
  refine (followedBy_noteStatement settings _ statement found).bind fun larger _ hlarger _ ↦ ?_
  exact followedBy_pure (Results.optional.mono hlarger hfound) rfl

/-- A loop comes to its items with well-formed scopes. -/
theorem Passes.formedWith {run : α → Run β} {R : Results β} {goesOn : β → Prop} {items : List α}
    {frame : FrameId} (h : Passes run goesOn items machine middle)
    (hrun : ∀ item size, frame < size → (run item).FollowedBy id R size (run item))
    (hmachine : machine.scopes.FormedWith frame) : middle.scopes.FormedWith frame := by
  induction h with
  | nil => exact hmachine
  | cons hitem _ _ ih =>
    exact ih (hmachine.of_done (hrun _ _ hmachine.2) hitem).1

/-! ### Activations -/

/-- Its scopes are well formed, and its frame exists. -/
def Activation.IsFormed (activation : Activation) : Prop :=
  activation.machine.scopes.FormedWith activation.frame

variable {settings : Settings} {outer inner : Activation}

theorem Starts.isFormed (h : Starts settings outer inner) (houter : outer.IsFormed) :
    inner.IsFormed := by
  have hevaluate (depth : Nat) {size : Nat} {frame : FrameId} (hframe : frame < size)
      (expression : Expr) := (followedAt id settings depth).evaluate hframe expression
  cases h with
  | expression | returned | bound | block | operand | left | indexed | array | hash | conditional
  | condition | call | callee => exact houter
  | statement hbefore =>
    exact hbefore.formedWith
      (fun statement _ hframe ↦ followedBy_executeTraced settings hframe statement) houter
  | blockStatement hbefore =>
    exact hbefore.formedWith
      (fun statement _ hframe ↦ (followedAt id settings _).execute hframe statement) houter
  | item hbefore =>
    exact hbefore.formedWith (fun expression _ hframe ↦ hevaluate _ hframe expression) houter
  | key hbefore =>
    exact hbefore.formedWith (fun pair _ hframe ↦ followedBy_evaluatePair
      (hevaluate _ hframe pair.1) (hevaluate _ hframe pair.2)) houter
  | value hbefore hkey _ =>
    have hmiddle := hbefore.formedWith (fun pair _ hframe ↦ followedBy_evaluatePair
      (hevaluate _ hframe pair.1) (hevaluate _ hframe pair.2)) houter
    exact (hmiddle.of_done (hevaluate _ hmiddle.2 _) hkey).1
  | right hleft _ | place hleft _ => exact (houter.of_done (hevaluate _ houter.2 _) hleft).1
  | arguments hcallee => exact (houter.of_done (hevaluate _ houter.2 _) hcallee).1
  | consequence hcondition _ hnote _ | alternative hcondition _ hnote _ =>
    obtain ⟨hmiddle, -⟩ := houter.of_done (hevaluate _ houter.2 _) hcondition
    exact (hmiddle.of_done (followedBy_noteCondition settings _ _) hnote).1
  | argument hcallee hopen _ hbefore =>
    obtain ⟨hmiddle, hfunction⟩ := houter.of_done (hevaluate _ houter.2 _) hcallee
    have hclosure := Value.all_function_iff.mp hfunction
    obtain ⟨hopened, -⟩ := hmiddle.of_done (followedBy_openFrame hclosure) hopen
    exact hbefore.formedWith
      (fun pair _ hframe ↦ followedBy_bindOne _ (hevaluate _ hframe pair.2)) hopened
  | body hcallee hopen hbind hnote =>
    obtain ⟨hmiddle, hfunction⟩ := houter.of_done (hevaluate _ houter.2 _) hcallee
    have hclosure := Value.all_function_iff.mp hfunction
    obtain ⟨hopened, hinner⟩ := hmiddle.of_done (followedBy_openFrame hclosure) hopen
    have hframe := hopened.2
    have hopened' : Scopes.FormedWith _ _ := ⟨hopened.1, hinner⟩
    obtain ⟨hbound, -⟩ := hopened'.of_done
      (followedBy_bindArguments _ fun argument _ ↦ hevaluate _ hframe argument) hbind
    exact (hbound.of_done (followedBy_noteCall settings _ _ _) hnote).1

theorem Activation.IsFormed.of_chain (houter : outer.IsFormed)
    (hchain : Relation.ReflTransGen (Starts settings) outer inner) : inner.IsFormed := by
  induction hchain with
  | refl => exact houter
  | tail _ hstarts ih => exact hstarts.isFormed ih

/-- What holds of formed values and scopes with so many frames holds of what a formed activation
leaves and gives, with the frames that there are then. -/
theorem Activation.IsFormed.exists_satisfies {activation : Activation} (h : activation.IsFormed)
    {invariant : Nat → Scopes → Prop} {property : Nat → Value → Prop}
    (hinvariant : ∀ scopes, scopes.FormedWith activation.frame →
      invariant scopes.frames.size scopes)
    (hproperty : ∀ count found, found.All (Value.IsFormed count) → property count found) :
    ∃ count, activation.Satisfies settings (invariant count) (property count) := by
  have hoptional (count : Nat) (result : Option Value)
      (hresult : Results.optional.Formed count result) (found : Value) (hfound : found ∈ result) :=
    hproperty count found (hresult found hfound)
  obtain ⟨task, depth, frame, machine⟩ := activation
  obtain ⟨hmachine, hframe⟩ := h
  have hat := followedAt id settings depth
  cases task with
  | program statements =>
    exact ((followedBy_programResult id settings hframe statements Results.formed_none).isFormed
      le_rfl hmachine).exists_satisfies hframe hinvariant hoptional
  | execute statement =>
    exact ((hat.execute hframe statement).isFormed le_rfl hmachine).exists_satisfies hframe
      hinvariant hoptional
  | executeEach statements =>
    exact ((hat.executeEach hframe statements).isFormed le_rfl hmachine).exists_satisfies hframe
      hinvariant hoptional
  | evaluate expression =>
    exact ((hat.evaluate hframe expression).isFormed le_rfl hmachine).exists_satisfies hframe
      hinvariant hproperty
  | evaluateEach expressions =>
    refine ((hat.evaluateEach hframe expressions).isFormed le_rfl hmachine).exists_satisfies hframe
      hinvariant fun count result hresult values heq found hfound ↦ ?_
    exact hproperty count found (hresult values heq found hfound)
  | conditional condition consequence alternative =>
    exact ((hat.conditional hframe condition consequence alternative).isFormed le_rfl
      hmachine).exists_satisfies hframe hinvariant hproperty
  | call callee arguments =>
    exact ((hat.call hframe callee arguments).isFormed le_rfl hmachine).exists_satisfies hframe
      hinvariant hproperty
  | hashLiteral pairs =>
    exact ((hat.hashLiteral hframe pairs).isFormed le_rfl hmachine).exists_satisfies hframe
      hinvariant hproperty

/-- The values that a formed activation gives have distinct keys. -/
theorem Activation.IsFormed.satisfies {activation : Activation} (h : activation.IsFormed)
    {invariant : Scopes → Prop}
    (hinvariant : ∀ scopes, scopes.FormedWith activation.frame → invariant scopes) :
    activation.Satisfies settings invariant (Value.All Value.HasDistinctKeys) := by
  have hexists : ∃ _ : Nat,
      activation.Satisfies settings invariant (Value.All Value.HasDistinctKeys) :=
    h.exists_satisfies hinvariant fun _ found hfound ↦
      Value.All.mono (fun _ ↦ Value.IsFormed.hasDistinctKeys) found hfound
  exact hexists.elim fun _ ↦ id

end Evaluation

/-! ### Programs one after the other -/

open Evaluation

/-- The activations of programs that are run one after the other in a frame, each with its settings
and with the machine that the one before has left. -/
def Program.activations (frame : FrameId) :
    List (Settings × Program) → Machine → List (Settings × Activation)
  | [], _ => []
  | (settings, program) :: rest, machine =>
    (settings, program.activation settings frame machine) ::
      activations frame rest (program.run settings frame machine).machine

variable {frame : FrameId}

theorem Program.run_formedWith (settings : Settings) (program : Program) (frame : FrameId) :
    (program.run settings frame).Ensures (Scopes.FormedWith frame)
      fun result ↦ ∀ value ∈ result, value.All Value.HasDistinctKeys := by
  refine Program.ensures_run (fun machine hmachine ↦ ?_) ?_
  · have hformed : (program.activation settings frame machine).IsFormed := hmachine
    exact hformed.satisfies fun _ ↦ id
  · rintro value ⟨⟩
    exact Value.all_of_isPlain rfl trivial

theorem Program.activations_isFormed {programs : List (Settings × Program)} {machine : Machine}
    (hmachine : machine.scopes.FormedWith frame) :
    ∀ entry ∈ Program.activations frame programs machine, entry.2.IsFormed := by
  induction programs generalizing machine with
  | nil => exact List.forall_mem_nil _
  | cons entry rest ih =>
    obtain ⟨settings, program⟩ := entry
    have hrun := Program.run_formedWith settings program frame machine hmachine
    rw [Program.activations]
    exact List.forall_mem_cons.mpr ⟨hmachine, ih hrun.invariant⟩

theorem formedWith_start : Machine.start.scopes.FormedWith topFrame :=
  ⟨Scopes.wellFormed_start, Nat.one_pos⟩

/-! ### The heap of frames -/

/-- The functions that occur in the value have one of the first `count` frames. -/
def Value.CapturesWithin (count : Nat) (value : Value) : Prop :=
  ∀ closure, (Value.function closure).Occurs value → closure.frame < count

theorem Value.capturesWithin_of_isFormed {count : Nat} {value : Value}
    (h : value.All (Value.IsFormed count)) : value.CapturesWithin count :=
  fun _ hoccurs ↦ h.occurs hoccurs

/-- There are `count` frames. Every outer frame was opened before the frame that it encloses, every
function that occurs in a binding has a frame that exists, and so every look-up walks outward along
a chain that ends, after at most `count` frames. -/
structure Scopes.Grounded (count : Nat) (scopes : Scopes) : Prop where
  size : scopes.frames.size = count
  outer : scopes.OuterOlder
  functions : scopes.AllBindings (Value.CapturesWithin count)
  walks : ∀ frame < count, ∃ chain, scopes.Chain frame chain ∧ chain.length ≤ count ∧
    ∀ name, scopes.get? frame name = chain.findSome? (scopes.own? · name)

theorem Scopes.WellFormed.grounded {scopes : Scopes} (h : scopes.WellFormed) :
    scopes.Grounded scopes.frames.size where
  size := rfl
  outer := h.outerOlder
  functions := h.bindings.mono fun _ ↦ Value.capturesWithin_of_isFormed
  walks _ hframe := h.outerOlder.exists_chain_get? hframe

/-- A program leaves the frames in order, and its result, if it has one, with frames that exist. -/
theorem Program.run_grounded {settings : Settings} {program : Program} {machine : Machine}
    (hmachine : machine.scopes.FormedWith frame) :
    ∃ count, (program.run settings frame machine).Satisfies (Scopes.Grounded count)
      fun result ↦ ∀ value ∈ result, value.CapturesWithin count := by
  have hformed : (program.activation settings frame machine).IsFormed := hmachine
  obtain ⟨count, hresult⟩ := hformed.exists_satisfies (fun _ hscopes ↦ hscopes.1.grounded)
    fun _ _ ↦ Value.capturesWithin_of_isFormed
  refine ⟨count, Program.satisfies_run hresult ?_⟩
  rintro value ⟨⟩
  exact Value.capturesWithin_of_isFormed (Value.formed_of_isPlain rfl)

/-- However programs that are run one after the other end, starting with nothing, the frames that
each of them leaves are in order, and so are those before and after everything that is evaluated on
the way: outer frames are older, functions in bindings and in results have frames that exist, and a
look-up from any frame walks along a chain with no more frames than there are. -/
theorem heap_of_frames_stays_grounded (programs : List (Settings × Program)) :
    (∀ outcome ∈ Program.outcomes topFrame programs Machine.start,
      ∃ count, outcome.Satisfies (Scopes.Grounded count)
        fun result ↦ ∀ value ∈ result, value.CapturesWithin count) ∧
    ∀ entry ∈ Program.activations topFrame programs Machine.start,
      ∀ inner, Relation.ReflTransGen (Starts entry.1) entry.2 inner →
        (∃ count, inner.frame < count ∧ inner.machine.scopes.Grounded count) ∧
          ∃ count, inner.Satisfies entry.1 (Scopes.Grounded count)
            (Value.CapturesWithin count) := by
  refine ⟨?_, fun entry hmem inner hchain ↦ ?_⟩
  · refine Program.forall_mem_outcomes (fun entry _ machine hmachine ↦ ⟨?_, ?_⟩) formedWith_start
    · exact (Program.run_formedWith entry.1 entry.2 topFrame machine hmachine).invariant
    · exact Program.run_grounded hmachine
  · have hinner := (Program.activations_isFormed formedWith_start entry hmem).of_chain hchain
    refine ⟨⟨_, hinner.2, hinner.1.grounded⟩, ?_⟩
    exact hinner.exists_satisfies (fun _ hscopes ↦ hscopes.1.grounded)
      fun _ _ ↦ Value.capturesWithin_of_isFormed

/-- Functions in an array and a hash, an argument that fails after a frame was opened for it, a
recursion without an end, and a function that is called and gives another one. -/
theorem heap_of_frames_stays_grounded_after_failures :
    let programs : List (Settings × Program) :=
      [({}, (Program.ofSource
          "let f = fn(x) \x7b fn() \x7b x \x7d \x7d; [f, \x7b1: f(2)\x7d]").program),
        ({ verbosity := 3 }, (Program.ofSource "let g = f(f); f(missing)").program),
        ({ depthLimit := 40 }, (Program.ofSource "let h = fn(x) \x7b h([x]) \x7d; h(g)").program),
        ({}, (Program.ofSource "g()(3)").program)]
    let outcomes := Program.outcomes topFrame programs Machine.start
    let ending (outcome : Outcome (Option Value)) :=
      (outcome.failure?.map (·.kind), outcome.machine.scopes.frames.size)
    outcomes.map ending = [(none, 2), (some .undefinedIdentifier, 4), (some .depthExceeded, 12),
        (none, 14)] ∧
      ∀ outcome ∈ outcomes, ∃ count, outcome.Satisfies (Scopes.Grounded count)
        fun result ↦ ∀ value ∈ result, value.CapturesWithin count := by
  intro programs outcomes ending
  have hendings : outcomes.map ending = [(none, 2), (some .undefinedIdentifier, 4),
      (some .depthExceeded, 12), (none, 14)] := by decide +kernel
  exact ⟨hendings, (heap_of_frames_stays_grounded programs).1⟩

end MonkeyLang
