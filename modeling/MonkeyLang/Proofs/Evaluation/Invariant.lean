import Mathlib.Tactic
import MonkeyLang.Proofs.Entries
import MonkeyLang.Session

/-!
# Invariants of running programs

A computation ensures a property if, from every machine whose variables have an invariant, it leaves
variables with the invariant, whether it ends or is halted, and if it ends, its value has the
property. This module shows how computations that ensure something are put together: the primitive
steps, a computation after another, and the loops of the evaluator. The loops follow the lists that
they run over.

What an invariant has to stand up to is then one thing only: the bindings that a program makes. The
output, the trace and the serial numbers of functions play no part in it.

A computation that does not keep an invariant from every machine may still keep it from the one that
it is started with. What comes after a step then has to be looked at only with the machine and the
value that the step has really given. For a loop this means that an item is run with the machine
that the items before it have left, all of them having gone on (`Passes`, `AtEach`).
-/

set_option autoImplicit false

namespace MonkeyLang

variable {α β : Type}

/-! ### Frames of variables -/

namespace Scopes

theorem getElem?_newFrame {scopes : Scopes} (enclosing : Option FrameId) {other : FrameId}
    (hother : other < scopes.frames.size) :
    (scopes.newFrame enclosing).2.frames[other]? = scopes.frames[other]? := by
  rw [newFrame, Array.getElem?_push, if_neg (Nat.ne_of_lt hother)]

theorem getElem?_set (scopes : Scopes) (frame other : FrameId) (name : String) (value : Value) :
    (scopes.set frame name value).frames[other]? =
      if frame = other then (scopes.frames[other]?).map (·.set name value)
      else scopes.frames[other]? := by
  rw [set, Array.getElem?_modify]

end Scopes

/-! ### Computations that ensure a property -/

/-- The machine at the end of a computation, however it ends. -/
def Outcome.machine : Outcome α → Machine
  | .done _ machine | .halted _ machine => machine

/-- The variables have the invariant, and if there is a value, it has the property. -/
def Outcome.Satisfies (invariant : Scopes → Prop) (property : α → Prop) : Outcome α → Prop
  | .done value machine => invariant machine.scopes ∧ property value
  | .halted _ machine => invariant machine.scopes

instance (invariant : Scopes → Prop) (property : α → Prop) [DecidablePred invariant]
    [DecidablePred property] : DecidablePred (Outcome.Satisfies invariant property)
  | .done value machine => inferInstanceAs (Decidable (invariant machine.scopes ∧ property value))
  | .halted _ machine => inferInstanceAs (Decidable (invariant machine.scopes))

theorem Outcome.Satisfies.mono {invariant invariant' : Scopes → Prop}
    {property property' : α → Prop} {outcome : Outcome α}
    (h : outcome.Satisfies invariant property)
    (hinvariant : ∀ scopes, invariant scopes → invariant' scopes)
    (hproperty : ∀ value, property value → property' value) :
    outcome.Satisfies invariant' property' := by
  cases outcome with
  | done value machine => exact ⟨hinvariant _ h.1, hproperty value h.2⟩
  | halted halt machine => exact hinvariant _ h

theorem Outcome.Satisfies.invariant {invariant : Scopes → Prop} {property : α → Prop}
    {outcome : Outcome α} (h : outcome.Satisfies invariant property) :
    invariant outcome.machine.scopes := by
  cases outcome with
  | done value machine => exact h.1
  | halted halt machine => exact h

namespace Run

def Ensures (invariant : Scopes → Prop) (property : α → Prop) (run : Run α) : Prop :=
  ∀ machine : Machine, invariant machine.scopes → (run machine).Satisfies invariant property

variable {invariant : Scopes → Prop} {property : α → Prop}

/-! ### Steps -/

theorem ensures_pure {value : α} (hvalue : property value) :
    (pure value : Run α).Ensures invariant property :=
  fun _ hmachine ↦ ⟨hmachine, hvalue⟩

theorem ensures_halt (reason : Halt) : (halt reason : Run α).Ensures invariant property :=
  fun _ hmachine ↦ hmachine

theorem Ensures.mono {run : Run α} {weaker : α → Prop} (h : run.Ensures invariant property)
    (hweaker : ∀ value, property value → weaker value) : run.Ensures invariant weaker :=
  fun machine hmachine ↦ (h machine hmachine).mono (fun _ ↦ id) hweaker

/-- What comes next is only run from where the first run has ended. -/
theorem satisfies_bind {machine : Machine} {first : Run β} {next : β → Run α} {middle : β → Prop}
    (hfirst : (first machine).Satisfies invariant middle)
    (hnext : ∀ found after, first machine = .done found after → invariant after.scopes →
      middle found → (next found after).Satisfies invariant property) :
    ((first >>= next) machine).Satisfies invariant property := by
  show (Run.bind first next machine).Satisfies invariant property
  rw [Run.bind]
  cases houtcome : first machine with
  | done found after =>
    rw [houtcome] at hfirst
    exact hnext found after houtcome hfirst.1 hfirst.2
  | halted halt after => rwa [houtcome] at hfirst

theorem Ensures.bind {first : Run β} {next : β → Run α} {middle : β → Prop}
    (hfirst : first.Ensures invariant middle)
    (hnext : ∀ value, middle value → (next value).Ensures invariant property) :
    (first >>= next).Ensures invariant property :=
  fun machine hmachine ↦ satisfies_bind (hfirst machine hmachine)
    fun found after _ hafter hfound ↦ hnext found hfound after hafter

/-- Behind a value that may be an error, which is then the result. -/
theorem satisfies_andThen {machine : Machine} {first : Run Value} {next : Value → Run Value}
    {middle property : Value → Prop} (hfirst : (first machine).Satisfies invariant middle)
    (herror : ∀ failure, property (.error failure))
    (hnext : ∀ found after, first machine = .done found after → found.isError = false →
      invariant after.scopes → middle found → (next found after).Satisfies invariant property) :
    (first.andThen next machine).Satisfies invariant property := by
  rw [andThen]
  cases houtcome : first machine with
  | halted halt after => rwa [houtcome] at hfirst
  | done found after =>
    rw [houtcome] at hfirst
    cases found with
    | error failure => exact ⟨hfirst.1, herror failure⟩
    | _ => exact hnext _ after houtcome rfl hfirst.1 hfirst.2

theorem Ensures.andThen {first : Run Value} {next : Value → Run Value}
    {middle property : Value → Prop} (hfirst : first.Ensures invariant middle)
    (herror : ∀ failure, property (.error failure))
    (hnext : ∀ value, middle value → (next value).Ensures invariant property) :
    (first.andThen next).Ensures invariant property :=
  fun machine hmachine ↦ satisfies_andThen (hfirst machine hmachine) herror
    fun found after _ _ hafter hfound ↦ hnext found hfound after hafter

theorem ensures_print (room : Room) (value : Value) :
    (print room value).Ensures invariant fun _ ↦ True := by
  intro machine hmachine
  rw [print]
  split
  · exact hmachine
  · exact ⟨hmachine, trivial⟩

theorem ensures_note (settings : Settings) (level : Nat) (obstacle : Unit → Option Halt)
    (text : Unit → String) :
    (note settings level obstacle text).Ensures invariant fun _ ↦ True := by
  intro machine hmachine
  rw [note]
  split_ifs
  · split
    · exact hmachine
    · exact ⟨hmachine, trivial⟩
  · exact ⟨hmachine, trivial⟩

theorem ensures_setVariable {frame : FrameId} {name : String} {value : Value}
    (hset : ∀ scopes, invariant scopes → invariant (scopes.set frame name value)) :
    (setVariable frame name value).Ensures invariant fun _ ↦ True :=
  fun machine hmachine ↦ ⟨hset machine.scopes hmachine, trivial⟩

theorem ensures_openFrame {outer : FrameId} {property : FrameId → Prop}
    (hopen : ∀ scopes, invariant scopes → invariant (scopes.newFrame (some outer)).2 ∧
      property (scopes.newFrame (some outer)).1) :
    (openFrame outer).Ensures invariant property :=
  fun machine hmachine ↦ hopen machine.scopes hmachine

theorem ensures_getVariable {frame : FrameId} {name : String} {property : Option Value → Prop}
    (hget : ∀ scopes, invariant scopes → property (scopes.get? frame name)) :
    (getVariable frame name).Ensures invariant property :=
  fun machine hmachine ↦ ⟨hmachine, hget machine.scopes hmachine⟩

theorem ensures_makeFunction {parameters : List Identifier} {body : Block} {frame : FrameId}
    {property : Value → Prop}
    (hfunction : ∀ serial, property (.function ⟨serial, parameters, body, frame⟩)) :
    (makeFunction parameters body frame).Ensures invariant property :=
  fun machine hmachine ↦ ⟨hmachine, hfunction machine.functions⟩

end Run

/-! ### Results of runs -/

namespace Run

variable {machine final : Machine}

theorem bind_eq_done_iff {first : Run β} {next : β → Run α} {value : α} :
    (first >>= next) machine = .done value final ↔
      ∃ found middle, first machine = .done found middle ∧
        next found middle = .done value final := by
  show Run.bind first next machine = _ ↔ _
  rw [Run.bind]
  cases first machine with
  | done found middle => simp
  | halted halt middle => simp

/-- A step that is taken for its effect only. -/
theorem bind_unit_eq_done_iff {first : Run Unit} {next : Unit → Run α} {value : α} :
    (first >>= next) machine = .done value final ↔
      ∃ middle, first machine = .done () middle ∧ next () middle = .done value final :=
  bind_eq_done_iff.trans ⟨fun ⟨_, middle, h⟩ ↦ ⟨middle, h⟩, fun ⟨middle, h⟩ ↦ ⟨(), middle, h⟩⟩

theorem pure_eq_done_iff {found value : α} :
    (pure found : Run α) machine = .done value final ↔ found = value ∧ machine = final :=
  Outcome.done.injEq .. ▸ Iff.rfl

theorem andThen_eq_bind (first : Run Value) (next : Value → Run Value) :
    first.andThen next = first >>= fun found ↦ (pure found : Run Value).andThen next := by
  funext machine
  show _ = Run.bind first _ machine
  rw [Run.andThen, Run.bind]
  cases first machine <;> rfl

theorem andThen_of_done {first : Run Value} {next : Value → Run Value} {found : Value}
    {middle : Machine} (hfirst : first machine = .done found middle)
    (hfound : found.isError = false) : first.andThen next machine = next found middle := by
  rw [andThen, hfirst]
  cases found with
  | error failure => cases hfound
  | _ => rfl

end Run

/-! ### Loops -/

namespace Evaluation

open Run

/-- Whether the statements around end with this result: a returned value or an error. -/
def ends : Option Value → Bool
  | some (.returned _) | some (.error _) => true
  | _ => false

theorem ends_eq_false {result : Option Value} (hreturned : ∀ value, result ≠ some (.returned value))
    (herror : ∀ failure, result ≠ some (.error failure)) : ends result = false := by
  unfold ends
  split
  · exact absurd rfl (hreturned _)
  · exact absurd rfl (herror _)
  · rfl

/-- The items are run one after the other, and each gives a result with which the loop goes on. -/
inductive Passes (run : α → Run β) (goesOn : β → Prop) : List α → Machine → Machine → Prop
  | nil {machine : Machine} : Passes run goesOn [] machine machine
  | cons {item : α} {items : List α} {found : β} {machine middle after : Machine}
    (hrun : run item machine = .done found middle) (hgoesOn : goesOn found)
    (hrest : Passes run goesOn items middle after) : Passes run goesOn (item :: items) machine after

/-- The claim holds of every item, with the machine with which the loop comes to it. -/
def AtEach (run : α → Run β) (goesOn : β → Prop) (claim : α → Machine → Prop) (items : List α)
    (machine : Machine) : Prop :=
  ∀ before item rest middle, items = before ++ item :: rest →
    Passes run goesOn before machine middle → claim item middle

section

variable {run : α → Run β} {goesOn : β → Prop} {claim : α → Machine → Prop} {item : α}
  {items rest : List α} {machine middle : Machine} {found : β}

theorem AtEach.head (h : AtEach run goesOn claim (item :: rest) machine) : claim item machine :=
  h [] item rest machine rfl .nil

theorem AtEach.tail (h : AtEach run goesOn claim (item :: rest) machine)
    (hrun : run item machine = .done found middle) (hgo : goesOn found) :
    AtEach run goesOn claim rest middle :=
  fun before other behind after heq hpasses ↦
    h (item :: before) other behind after (by rw [heq]; rfl) (.cons hrun hgo hpasses)

/-- With whichever machine the loop comes to an item. -/
theorem atEach_of_forall (h : ∀ item ∈ items, ∀ machine, claim item machine) :
    AtEach run goesOn claim items machine :=
  fun _ item _ middle heq _ ↦ h item (heq ▸ List.mem_append_right _ (.head _)) middle

end

/-- The run keeps to the invariant and gives values of the property, if started so. -/
def KeepsAt (invariant : Scopes → Prop) (property : α → Prop) (run : Run α) (machine : Machine) :
    Prop :=
  invariant machine.scopes → (run machine).Satisfies invariant property

variable {invariant : Scopes → Prop} {property : Value → Prop} {machine final : Machine}

theorem satisfies_values {evaluate : α → Run Value} {items : List α}
    (hitems : AtEach evaluate (·.isError = false)
      (fun item ↦ KeepsAt invariant property (evaluate item)) items machine)
    (hmachine : invariant machine.scopes) :
    (values evaluate items machine).Satisfies invariant fun result ↦
      ∀ found, result = .ok found → ∀ value ∈ found, property value := by
  induction items generalizing machine with
  | nil =>
    refine ⟨hmachine, ?_⟩
    rintro found ⟨⟩
    exact List.forall_mem_nil _
  | cons item rest ih =>
    rw [values]
    refine satisfies_bind (hitems.head hmachine) fun value middle hrun hmiddle hvalue ↦ ?_
    cases value with
    | error failure => exact ⟨hmiddle, by simp⟩
    | _ =>
      refine satisfies_bind (ih (hitems.tail hrun rfl) hmiddle)
        fun result after _ hafter hresult ↦ ?_
      cases result with
      | error failure => exact ⟨hafter, by simp⟩
      | ok found =>
        refine ⟨hafter, ?_⟩
        rintro all ⟨⟩
        exact List.forall_mem_cons.mpr ⟨hvalue, hresult found rfl⟩

theorem ensures_values {evaluate : α → Run Value} {items : List α}
    (hitems : ∀ item ∈ items, (evaluate item).Ensures invariant property) :
    (values evaluate items).Ensures invariant fun result ↦
      ∀ found, result = .ok found → ∀ value ∈ found, property value :=
  fun _ ↦ satisfies_values (atEach_of_forall hitems)

/-- Evaluates the argument and binds the parameter to its value. -/
def bindOne (evaluate : α → Run Value) (frame : FrameId) (pair : Identifier × α) : Run Value := do
  let value ← evaluate pair.2
  Run.setVariable frame pair.1.value value
  return value

theorem bindOne_eq_done_iff {evaluate : α → Run Value} {frame : FrameId} {pair : Identifier × α}
    {value : Value} :
    bindOne evaluate frame pair machine = .done value final ↔
      ∃ middle, evaluate pair.2 machine = .done value middle ∧
        Run.setVariable frame pair.1.value value middle = .done () final := by
  simp only [bindOne, Run.bind_eq_done_iff, Run.pure_eq_done_iff]
  constructor
  · rintro ⟨found, middle, hrun, _, after, hset, rfl, rfl⟩
    exact ⟨middle, hrun, hset⟩
  · rintro ⟨middle, hrun, hset⟩
    exact ⟨value, middle, hrun, _, final, hset, rfl, rfl⟩

theorem satisfies_bindArguments {evaluate : α → Run Value} {frame : FrameId}
    {parameters : List Identifier} {arguments : List α}
    (harguments : AtEach (bindOne evaluate frame) (·.isError = false)
      (fun pair ↦ KeepsAt invariant property (evaluate pair.2)) (parameters.zip arguments) machine)
    (hset : ∀ name value scopes, property value → invariant scopes →
      invariant (scopes.set frame name value))
    (hmachine : invariant machine.scopes) :
    (bindArguments evaluate frame parameters arguments machine).Satisfies invariant
      fun _ ↦ True := by
  induction arguments generalizing parameters machine with
  | nil => cases parameters <;> exact ⟨hmachine, trivial⟩
  | cons argument rest ih =>
    cases parameters with
    | nil => exact ⟨hmachine, trivial⟩
    | cons parameter parameters =>
      rw [bindArguments]
      refine satisfies_bind (harguments.head hmachine) fun value middle hrun hmiddle hvalue ↦ ?_
      have hbound : bindOne evaluate frame (parameter, argument) machine = .done value
          { middle with scopes := middle.scopes.set frame parameter.value value } :=
        bindOne_eq_done_iff.mpr ⟨middle, hrun, rfl⟩
      cases value with
      | error failure => exact ⟨hmiddle, trivial⟩
      | _ => exact ih (harguments.tail hbound rfl) (hset _ _ _ hvalue hmiddle)

theorem ensures_bindArguments {evaluate : α → Run Value} {frame : FrameId}
    {parameters : List Identifier} {arguments : List α}
    (harguments : ∀ argument ∈ arguments, (evaluate argument).Ensures invariant property)
    (hset : ∀ name value scopes, property value → invariant scopes →
      invariant (scopes.set frame name value)) :
    (bindArguments evaluate frame parameters arguments).Ensures invariant fun _ ↦ True :=
  fun _ ↦ satisfies_bindArguments
    (atEach_of_forall fun pair hmem ↦ harguments pair.2 (List.of_mem_zip hmem).2) hset

/-- Evaluates a key and its value. -/
def evaluatePair (evaluate : α → Run Value) (pair : α × α) : Run (Value × Value) := do
  let key ← evaluate pair.1
  let value ← evaluate pair.2
  return (key, value)

/-- A pair of a hash with which it goes on. -/
def IsEntry (found : Value × Value) : Prop :=
  found.1.key?.isSome ∧ found.2.isError = false

theorem evaluatePair_eq_done_iff {evaluate : α → Run Value} {pair : α × α}
    {found : Value × Value} :
    evaluatePair evaluate pair machine = .done found final ↔
      ∃ middle, evaluate pair.1 machine = .done found.1 middle ∧
        evaluate pair.2 middle = .done found.2 final := by
  simp only [evaluatePair, Run.bind_eq_done_iff, Run.pure_eq_done_iff]
  constructor
  · rintro ⟨key, middle, hkey, value, after, hvalue, rfl, rfl⟩
    exact ⟨middle, hkey, hvalue⟩
  · rintro ⟨middle, hkey, hvalue⟩
    exact ⟨_, middle, hkey, _, final, hvalue, rfl, rfl⟩

theorem satisfies_hashPairs {evaluate : α → Run Value} {pairs : List (α × α)}
    {entries : List (Key × Value)} {keyProperty result : Value → Prop}
    (hpairs : AtEach (evaluatePair evaluate) IsEntry
      (fun pair middle ↦ KeepsAt invariant keyProperty (evaluate pair.1) middle ∧
        ∀ key after, evaluate pair.1 middle = .done key after → key.key?.isSome →
          KeepsAt invariant property (evaluate pair.2) after) pairs machine)
    (herror : ∀ failure, result (.error failure))
    (hhash : ∀ entries : List (Key × Value),
      (∀ entry ∈ entries, keyProperty entry.1.toValue ∧ property entry.2) → result (.hash entries))
    (hentries : ∀ entry ∈ entries, keyProperty entry.1.toValue ∧ property entry.2)
    (hmachine : invariant machine.scopes) :
    (hashPairs evaluate pairs entries machine).Satisfies invariant result := by
  induction pairs generalizing entries machine with
  | nil => exact ⟨hmachine, hhash entries hentries⟩
  | cons pair rest ih =>
    obtain ⟨key, value⟩ := pair
    rw [hashPairs]
    refine satisfies_andThen (hpairs.head.1 hmachine) herror fun k middle hk _ hmiddle hkey ↦ ?_
    cases hfound : k.key? with
    | none => exact ⟨hmiddle, herror _⟩
    | some found =>
      have hsome : k.key?.isSome := by rw [hfound]; rfl
      refine satisfies_andThen (hpairs.head.2 k middle hk hsome hmiddle) herror
        fun v after hv hgo hafter hvalue ↦ ?_
      have hpair : evaluatePair evaluate (key, value) machine = .done (k, v) after :=
        evaluatePair_eq_done_iff.mpr ⟨middle, hk, hv⟩
      refine ih (hpairs.tail hpair ⟨hsome, hgo⟩) (fun entry hentry ↦ ?_) hafter
      rcases Entries.mem_put hentry with rfl | hentry
      · rw [Value.key?_eq_some_iff.mp hfound] at hkey
        exact ⟨hkey, hvalue⟩
      · exact hentries entry hentry

theorem ensures_hashPairs {evaluate : α → Run Value} {pairs : List (α × α)}
    {done : List (Key × Value)} {result : Value → Prop}
    (hkeys : ∀ pair ∈ pairs, (evaluate pair.1).Ensures invariant fun _ ↦ True)
    (hvalues : ∀ pair ∈ pairs, (evaluate pair.2).Ensures invariant property)
    (hdone : ∀ entry ∈ done, property entry.2)
    (herror : ∀ failure, result (.error failure))
    (hhash : ∀ entries : List (Key × Value), (∀ entry ∈ entries, property entry.2) →
      result (.hash entries)) :
    (hashPairs evaluate pairs done).Ensures invariant result := by
  intro machine
  have hpairs : ∀ pair ∈ pairs, ∀ middle,
      KeepsAt invariant (fun _ ↦ True) (evaluate pair.1) middle ∧
        ∀ key after, evaluate pair.1 middle = .done key after → key.key?.isSome →
          KeepsAt invariant property (evaluate pair.2) after :=
    fun pair hmem middle ↦ ⟨hkeys pair hmem middle, fun _ after _ _ ↦ hvalues pair hmem after⟩
  exact satisfies_hashPairs (atEach_of_forall hpairs) herror
    (fun entries hentries ↦ hhash entries fun entry hmem ↦ (hentries entry hmem).2)
    fun entry hmem ↦ ⟨trivial, hdone entry hmem⟩

theorem satisfies_runEach {execute : α → Run (Option Value)} {statements : List α}
    {property : Option Value → Prop} {result : Option Value}
    (hstatements : AtEach execute (ends · = false)
      (fun statement ↦ KeepsAt invariant property (execute statement)) statements machine)
    (hresult : property result) (hmachine : invariant machine.scopes) :
    (runEach execute result statements machine).Satisfies invariant property := by
  induction statements generalizing result machine with
  | nil => exact ⟨hmachine, hresult⟩
  | cons statement rest ih =>
    rw [runEach]
    refine satisfies_bind (hstatements.head hmachine) fun found middle hrun hmiddle hfound ↦ ?_
    split
    · exact ⟨hmiddle, hfound⟩
    · exact ⟨hmiddle, hfound⟩
    · rename_i hreturned herror
      exact ih (hstatements.tail hrun (ends_eq_false hreturned herror)) hfound hmiddle

theorem ensures_runEach {execute : α → Run (Option Value)} {statements : List α}
    {property : Option Value → Prop} {result : Option Value}
    (hstatements : ∀ statement ∈ statements, (execute statement).Ensures invariant property)
    (hresult : property result) :
    (runEach execute result statements).Ensures invariant property :=
  fun _ ↦ satisfies_runEach (atEach_of_forall hstatements) hresult

end Evaluation

namespace Builtin

open Run

variable {invariant : Scopes → Prop} {property : Value → Prop}

theorem ensures_printEach (room : Room) (values : List Value) :
    (printEach room values).Ensures invariant fun _ ↦ True := by
  induction values with
  | nil => exact ensures_pure trivial
  | cons value values ih =>
    rw [printEach]
    exact .bind (ensures_print room value) fun _ _ ↦ ih

/-- The number of items that `len` finds in its argument. -/
def size? : Builtin → List Value → Option Nat
  | len, [.string s] => some s.length
  | len, [.array elements] => some elements.length
  | _, _ => none

/-- A builtin function gives a length, nothing, an error, or something made of the elements of its
arguments. -/
theorem ensures_call_or_error {room : Room} (builtin : Builtin) {arguments : List Value}
    (harguments : ∀ argument ∈ arguments, property argument)
    (hsize : ∀ size ∈ builtin.size? arguments, property (.integer size)) (hnull : property .null)
    (harray : ∀ elements, property (.array elements) ↔ ∀ element ∈ elements, property element) :
    (builtin.call room arguments).Ensures invariant fun value ↦
      property value ∨ ∃ failure, value = .error failure := by
  have hresult : (builtin.result room arguments).Ensures invariant fun value ↦
      property value ∨ ∃ failure, value = .error failure := by
    unfold result
    split
    · exact ensures_pure (.inl (hsize _ rfl))
    · exact ensures_pure (.inl (hsize _ rfl))
    · rename_i elements
      have helements := (harray elements).mp (harguments _ (.head _))
      refine ensures_pure (.inl ?_)
      cases elements with
      | nil => exact hnull
      | cons element rest => exact helements element (.head _)
    · rename_i elements
      have helements := (harray elements).mp (harguments _ (.head _))
      refine ensures_pure (.inl ?_)
      cases hlast : elements.getLast? with
      | none => exact hnull
      | some element => exact helements element (List.mem_of_getLast? hlast)
    · rename_i elements
      have helements := (harray elements).mp (harguments _ (.head _))
      refine ensures_pure (.inl ((harray _).mpr fun element helement ↦ ?_))
      exact helements element (List.mem_of_mem_tail helement)
    · rename_i elements item
      have helements := (harray elements).mp (harguments _ (.head _))
      refine ensures_pure (.inl ((harray _).mpr fun element helement ↦ ?_))
      rcases List.mem_append.mp helement with helement | helement
      · exact helements element helement
      · rw [List.mem_singleton.mp helement]
        exact harguments item (.tail _ (.head _))
    · exact .bind (ensures_printEach _ _) fun _ _ ↦ ensures_pure (.inl hnull)
    · exact ensures_pure (.inr ⟨_, rfl⟩)
  rw [call]
  split
  · split_ifs
    · exact hresult
    · exact ensures_pure (.inr ⟨_, rfl⟩)
  · exact hresult

theorem ensures_call {room : Room} (builtin : Builtin) {arguments : List Value}
    (harguments : ∀ argument ∈ arguments, property argument)
    (hsize : ∀ size ∈ builtin.size? arguments, property (.integer size)) (hnull : property .null)
    (herror : ∀ failure, property (.error failure))
    (harray : ∀ elements, property (.array elements) ↔ ∀ element ∈ elements, property element) :
    (builtin.call room arguments).Ensures invariant property := by
  refine (builtin.ensures_call_or_error harguments hsize hnull harray).mono fun value hvalue ↦ ?_
  rcases hvalue with hvalue | ⟨failure, rfl⟩
  · exact hvalue
  · exact herror failure

end Builtin

/-! ### Programs and sessions -/

variable {invariant : Scopes → Prop} {property : Option Value → Prop}

namespace Evaluation

variable {settings : Settings} {frame : FrameId} {machine final : Machine}

/-- Executes a statement of a program and traces its result. -/
def executeTraced (settings : Settings) (frame : FrameId) (statement : Stmt) :
    Run (Option Value) := do
  let result ← execute settings settings.depthLimit statement frame
  noteStatement settings (some settings.depthLimit) statement result
  return result

theorem executeTraced_eq_done_iff {statement : Stmt} {result : Option Value} :
    executeTraced settings frame statement machine = .done result final ↔
      ∃ middle, execute settings settings.depthLimit statement frame machine = .done result middle ∧
        noteStatement settings (some settings.depthLimit) statement result middle =
          .done () final := by
  simp only [executeTraced, Run.bind_eq_done_iff, Run.pure_eq_done_iff]
  constructor
  · rintro ⟨found, middle, hrun, _, after, hnote, rfl, rfl⟩
    exact ⟨middle, hrun, hnote⟩
  · rintro ⟨middle, hrun, hnote⟩
    exact ⟨result, middle, hrun, _, final, hnote, rfl, rfl⟩

/-- The statements of a program give a property of its result if they give one that goes over to
it, and a returned value is taken out of its wrapper. -/
theorem satisfies_programResult {statements : List Stmt} {given : Option Value → Prop}
    {result : Option Value}
    (hstatements : AtEach (executeTraced settings frame) (ends · = false)
      (fun statement ↦ KeepsAt invariant given
        (execute settings settings.depthLimit statement frame)) statements machine)
    (hreturned : ∀ value, given (some (.returned value)) → property (some value))
    (hother : ∀ result, given result → (∀ value, result ≠ some (.returned value)) →
      property result)
    (hresult : property result) (hmachine : invariant machine.scopes) :
    (programResult settings frame result statements machine).Satisfies invariant property := by
  induction statements generalizing result machine with
  | nil => exact ⟨hmachine, hresult⟩
  | cons statement rest ih =>
    rw [programResult]
    refine Run.satisfies_bind (hstatements.head hmachine)
      fun found middle hrun hmiddle hfound ↦ ?_
    refine Run.satisfies_bind (Run.ensures_note _ _ _ _ middle hmiddle)
      fun _ after hnote hafter _ ↦ ?_
    have htraced := executeTraced_eq_done_iff.mpr ⟨middle, hrun, hnote⟩
    split
    · exact ⟨hafter, hreturned _ hfound⟩
    · exact ⟨hafter, hother _ hfound (by simp)⟩
    · rename_i hne herror
      exact ih (hstatements.tail htraced (ends_eq_false hne herror))
        (hother found hfound fun value heq ↦ hne value heq) hafter

theorem ensures_programResult {statements : List Stmt} {given : Option Value → Prop}
    {result : Option Value}
    (hstatements : ∀ statement ∈ statements,
      (execute settings settings.depthLimit statement frame).Ensures invariant given)
    (hreturned : ∀ value, given (some (.returned value)) → property (some value))
    (hother : ∀ result, given result → (∀ value, result ≠ some (.returned value)) →
      property result)
    (hresult : property result) :
    (programResult settings frame result statements).Ensures invariant property :=
  fun _ ↦ satisfies_programResult (atEach_of_forall hstatements) hreturned hother hresult

end Evaluation

theorem Program.satisfies_run {settings : Settings} {program : Program} {frame : FrameId}
    {machine : Machine}
    (hresult : (Evaluation.programResult settings frame none program.statements machine).Satisfies
      invariant property)
    (hdepth : property (some (.error ⟨.depthExceeded, ""⟩))) :
    (program.run settings frame machine).Satisfies invariant property := by
  rw [Program.run]
  split
  · rename_i halted heq
    rw [heq] at hresult
    exact Run.Ensures.bind (Run.ensures_note settings 1 _ _) (fun _ _ ↦ Run.ensures_pure hdepth)
      halted hresult
  · exact hresult

theorem Program.ensures_run {settings : Settings} {program : Program} {frame : FrameId}
    (hresult : (Evaluation.programResult settings frame none program.statements).Ensures
      invariant property)
    (hdepth : property (some (.error ⟨.depthExceeded, ""⟩))) :
    (program.run settings frame).Ensures invariant property :=
  fun machine hmachine ↦ Program.satisfies_run (hresult machine hmachine) hdepth

theorem satisfies_runSource {settings : Settings} {source : String} {frame : FrameId}
    {machine : Machine}
    (hrun : (Program.ofSource source).problems = [] →
      ((Program.ofSource source).program.run settings frame machine).Satisfies invariant property)
    (hnone : property none) (hmachine : invariant machine.scopes) :
    (runSource settings source frame machine).Satisfies invariant
      fun result ↦ property result.2 := by
  rw [runSource]
  split_ifs with hproblems
  · exact Run.satisfies_bind (hrun (List.isEmpty_iff.mp hproblems))
      fun _ _ _ hafter hvalue ↦ ⟨hafter, hvalue⟩
  · exact ⟨hmachine, hnone⟩

theorem ensures_runSource {settings : Settings} {source : String} {frame : FrameId}
    (hrun : ((Program.ofSource source).program.run settings frame).Ensures invariant property)
    (hnone : property none) :
    (runSource settings source frame).Ensures invariant fun result ↦ property result.2 :=
  fun machine hmachine ↦ satisfies_runSource (fun _ ↦ hrun machine hmachine) hnone hmachine

/-- The outcomes of texts that are run one after the other in the top-level frame, each with the
machine that the one before has left. -/
def Session.outcomes (settings : Settings) :
    List String → Machine → List (Outcome (List Diagnostic × Option Value))
  | [], _ => []
  | source :: rest, machine =>
    let outcome := runSource settings source topFrame machine
    outcome :: outcomes settings rest outcome.machine

theorem Session.outcomes_satisfy {settings : Settings} {sources : List String}
    {property : List Diagnostic × Option Value → Prop}
    (hsources : ∀ source ∈ sources,
      (runSource settings source topFrame).Ensures invariant property)
    {machine : Machine} (hmachine : invariant machine.scopes) :
    ∀ outcome ∈ outcomes settings sources machine, outcome.Satisfies invariant property := by
  induction sources generalizing machine with
  | nil => exact nofun
  | cons source rest ih =>
    have hfirst := hsources source (.head _) machine hmachine
    rintro outcome (_ | ⟨_, hmem⟩)
    · exact hfirst
    · exact ih (fun next hnext ↦ hsources next (.tail _ hnext)) hfirst.invariant outcome hmem

end MonkeyLang
