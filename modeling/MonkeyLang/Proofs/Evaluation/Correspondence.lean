import Mathlib.Tactic
import MonkeyLang.Proofs.Evaluation.Renumbering

/-!
# Runs under other numbers

Two machines match along a numbering `ρ` if they have printed and traced the same, made as many
functions, and the scopes of the first, which are well formed, are embedded in those of the second.
A run is followed by another one if from matching machines both end in the same way, with matching
machines, and the second result is the first one renumbered.

The frames of a value have to exist at the time when it is used. So a run is looked at from machines
that have at least a given number of frames, and what comes behind it from machines that have at
least as many as it has left; values that were formed before stay so, since frames are never taken
away. `Results` says for each type of results what renumbering them means and when they are formed.

Every evaluating function in a frame is followed by itself in the frame with the other number
(`followedAt`). With `ρ` the identity and twice the same machine this says that runs leave scopes
well formed and give formed values (`Run.FollowedBy.isFormed`).
-/

set_option autoImplicit false

namespace MonkeyLang

variable {α β : Type} {ρ : FrameId → FrameId}

/-! ### Machines that match -/

/-- The second machine is the first one with other numbers for its frames; it may have frames
besides. -/
structure Machine.Matches (ρ : FrameId → FrameId) (machine machine' : Machine) : Prop where
  wellFormed : machine.scopes.WellFormed
  scopes : machine.scopes.Embeds ρ machine'.scopes
  output : machine'.output = machine.output
  trace : machine'.trace = machine.trace
  functions : machine'.functions = machine.functions

theorem Machine.matches_self {machine : Machine} (h : machine.scopes.WellFormed) :
    machine.Matches id machine :=
  ⟨h, Scopes.embeds_self _, rfl, rfl, rfl⟩

/-- How results are renumbered, and when their frames are among the first ones. -/
structure Results (α : Type) where
  renumber : (FrameId → FrameId) → α → α
  Formed : Nat → α → Prop
  mono : ∀ {size grown : Nat} {found : α}, size ≤ grown → Formed size found → Formed grown found

namespace Results

def unit : Results Unit where
  renumber _ := id
  Formed _ _ := True
  mono _ := id

def frame : Results FrameId where
  renumber ρ := ρ
  Formed size frame := frame < size
  mono hsize hframe := Nat.lt_of_lt_of_le hframe hsize

def single : Results Value where
  renumber := Value.renumber
  Formed size value := value.All (Value.IsFormed size)
  mono hsize := Value.formed_mono hsize

/-- A result that may be missing. -/
def optional : Results (Option Value) where
  renumber ρ := Option.map (Value.renumber ρ)
  Formed size result := ∀ value ∈ result, value.All (Value.IsFormed size)
  mono hsize hresult value hvalue := Value.formed_mono hsize (hresult value hvalue)

/-- The values of a list, or the error that has ended it. -/
def listed : Results (Except Failure (List Value)) where
  renumber ρ := Except.map (List.map (Value.renumber ρ))
  Formed size result :=
    ∀ values, result = .ok values → ∀ value ∈ values, value.All (Value.IsFormed size)
  mono hsize hresult values heq value hvalue :=
    Value.formed_mono hsize (hresult values heq value hvalue)

/-- An error that has come up, if any. -/
def failed : Results (Option Failure) where
  renumber _ := id
  Formed _ _ := True
  mono _ := id

variable {size : Nat}

theorem formed_some {value : Value} (h : value.All (Value.IsFormed size)) :
    optional.Formed size (some value) := by
  rintro found ⟨⟩
  exact h

theorem formed_none : optional.Formed size none :=
  fun _ hvalue ↦ absurd hvalue (Option.not_mem_none _)

theorem formed_error (failure : Failure) : listed.Formed size (.error failure) :=
  fun _ heq ↦ nomatch heq

end Results


/-! ### Runs that are followed -/

/-- Both end in the same way, and the first with at least so many frames. -/
inductive Outcome.FollowedBy (ρ : FrameId → FrameId) (R : Results α) (size : Nat) :
    Outcome α → Outcome α → Prop
  | done {found : α} {machine machine' : Machine} (hmatches : machine.Matches ρ machine')
    (hsize : size ≤ machine.scopes.frames.size)
    (hformed : R.Formed machine.scopes.frames.size found) :
    FollowedBy ρ R size (.done found machine) (.done (R.renumber ρ found) machine')
  | halted {halt : Halt} {machine machine' : Machine} (hmatches : machine.Matches ρ machine')
    (hsize : size ≤ machine.scopes.frames.size) :
    FollowedBy ρ R size (.halted halt machine) (.halted halt machine')

theorem Outcome.FollowedBy.mono {R : Results α} {size grown : Nat} {outcome outcome' : Outcome α}
    (h : outcome.FollowedBy ρ R grown outcome') (hsize : size ≤ grown) :
    outcome.FollowedBy ρ R size outcome' := by
  cases h with
  | done hmatches hgrown hformed => exact .done hmatches (hsize.trans hgrown) hformed
  | halted hmatches hgrown => exact .halted hmatches (hsize.trans hgrown)

namespace Run

/-- From matching machines with at least so many frames the second run does what the first does. -/
def FollowedBy (ρ : FrameId → FrameId) (R : Results α) (size : Nat) (run run' : Run α) : Prop :=
  ∀ machine machine' : Machine, size ≤ machine.scopes.frames.size → machine.Matches ρ machine' →
    (run machine).FollowedBy ρ R machine.scopes.frames.size (run' machine')

variable {R : Results α} {S : Results β} {size grown : Nat}

theorem FollowedBy.mono {run run' : Run α} (h : run.FollowedBy ρ R size run')
    (hsize : size ≤ grown) : run.FollowedBy ρ R grown run' :=
  fun machine machine' hgrown ↦ h machine machine' (hsize.trans hgrown)

theorem followedBy_pure {found found' : α} (hformed : R.Formed size found)
    (hfound : found' = R.renumber ρ found) :
    (pure found : Run α).FollowedBy ρ R size (pure found') := by
  subst hfound
  exact fun _ _ hsize hmatches ↦ .done hmatches le_rfl (R.mono hsize hformed)

theorem followedBy_plain {found : Value} (hplain : found.isPlain) :
    (pure found : Run Value).FollowedBy ρ .single size (pure found) :=
  followedBy_pure (Value.formed_of_isPlain hplain) (Value.renumber_of_isPlain hplain).symm

theorem followedBy_halt (reason : Halt) :
    (halt reason : Run α).FollowedBy ρ R size (halt reason) :=
  fun _ _ _ hmatches ↦ .halted hmatches le_rfl

theorem FollowedBy.bind {first first' : Run α} {next next' : α → Run β}
    (hfirst : first.FollowedBy ρ R size first')
    (hnext : ∀ grown found, size ≤ grown → R.Formed grown found →
      (next found).FollowedBy ρ S grown (next' (R.renumber ρ found))) :
    (first >>= next).FollowedBy ρ S size (first' >>= next') := by
  intro machine machine' hsize hmatches
  show (Run.bind first next machine).FollowedBy ρ S _ (Run.bind first' next' machine')
  have houtcome := hfirst machine machine' hsize hmatches
  unfold Run.bind
  revert houtcome
  generalize first machine = outcome
  generalize first' machine' = outcome'
  rintro (⟨hmiddle, hgrown, hformed⟩ | ⟨hmiddle, hgrown⟩)
  · rename_i found middle middle'
    exact (hnext _ found (hsize.trans hgrown) hformed middle middle' le_rfl hmiddle).mono hgrown
  · exact .halted hmiddle hgrown

theorem FollowedBy.andThen {first first' : Run Value} {next next' : Value → Run Value}
    (hfirst : first.FollowedBy ρ .single size first')
    (hnext : ∀ grown (found : Value), size ≤ grown → found.All (Value.IsFormed grown) →
      (next found).FollowedBy ρ .single grown (next' (found.renumber ρ))) :
    (first.andThen next).FollowedBy ρ .single size (first'.andThen next') := by
  rw [andThen_eq_bind first, andThen_eq_bind first']
  refine hfirst.bind fun grown found hgrown hfound ↦ ?_
  cases found with
  | error failure => exact followedBy_pure hfound rfl
  | _ => exact hnext grown _ hgrown hfound

/-! ### Steps -/

theorem followedBy_print (room : Room) (found : Value) :
    (print room found).FollowedBy ρ .unit size (print room (found.renumber ρ)) := by
  intro machine machine' _ hmatches
  rw [print, print, Value.obstacle?_renumber, Value.text_renumber]
  split
  · exact .halted hmatches le_rfl
  · have hprinted : Machine.Matches ρ { machine with output := machine.output.push found.text }
        { machine' with output := machine'.output.push found.text } :=
      { hmatches with output := by rw [hmatches.output] }
    exact .done hprinted le_rfl trivial

theorem followedBy_note (settings : Settings) (level : Nat)
    {obstacle obstacle' : Unit → Option Halt} {text text' : Unit → String}
    (hobstacle : obstacle' () = obstacle ()) (htext : text' () = text ()) :
    (note settings level obstacle text).FollowedBy ρ .unit size
      (note settings level obstacle' text') := by
  intro machine machine' _ hmatches
  rw [note, note, hobstacle]
  split_ifs
  · split
    · exact .halted hmatches le_rfl
    · have hnoted : Machine.Matches ρ
          { machine with trace := machine.trace.push ⟨level, text ()⟩ }
          { machine' with trace := machine'.trace.push ⟨level, text' ()⟩ } :=
        { hmatches with trace := by rw [hmatches.trace, htext] }
      exact .done hnoted le_rfl trivial
  · exact .done hmatches le_rfl trivial

theorem followedBy_openFrame {outer : FrameId} (houter : outer < size) :
    (openFrame outer).FollowedBy ρ .frame size (openFrame (ρ outer)) := by
  intro machine machine' hsize hmatches
  have hopened : Machine.Matches ρ
      { machine with scopes := (machine.scopes.newFrame (some outer)).2 }
      { machine' with scopes := (machine'.scopes.newFrame (some (ρ outer))).2 } :=
    { hmatches with
      wellFormed := hmatches.wellFormed.newFrame (houter.trans_le hsize)
      scopes := hmatches.scopes.newFrame outer }
  have hgrown : machine.scopes.frames.size <
      (machine.scopes.newFrame (some outer)).2.frames.size := by
    rw [Scopes.size_newFrame]
    exact Nat.lt_succ_self _
  have hfresh : machine'.scopes.frames.size = ρ machine.scopes.frames.size :=
    (hmatches.scopes.fresh 0).symm
  show Outcome.FollowedBy ρ .frame _ (.done machine.scopes.frames.size _)
    (.done machine'.scopes.frames.size _)
  rw [hfresh]
  exact .done hopened hgrown.le hgrown

theorem followedBy_setVariable (target : FrameId) (name : String) {found : Value}
    (hfound : found.All (Value.IsFormed size)) :
    (setVariable target name found).FollowedBy ρ .unit size
      (setVariable (ρ target) name (found.renumber ρ)) := by
  intro machine machine' hsize hmatches
  have hset : Machine.Matches ρ { machine with scopes := machine.scopes.set target name found }
      { machine' with scopes := machine'.scopes.set (ρ target) name (found.renumber ρ) } :=
    { hmatches with
      wellFormed := hmatches.wellFormed.set target name (Value.formed_mono hsize hfound)
      scopes := hmatches.scopes.set target name found }
  refine .done hset ?_ trivial
  rw [Scopes.size_set]

theorem followedBy_getVariable (target : FrameId) (name : String) :
    (getVariable target name).FollowedBy ρ .optional size (getVariable (ρ target) name) := by
  intro machine machine' _ hmatches
  rw [getVariable, getVariable, hmatches.scopes.get? hmatches.wellFormed]
  exact .done hmatches le_rfl fun _ hget ↦ hmatches.wellFormed.formed_of_get? hget

theorem followedBy_makeFunction (parameters : List Identifier) (body : Block) {target : FrameId}
    (htarget : target < size) :
    (makeFunction parameters body target).FollowedBy ρ .single size
      (makeFunction parameters body (ρ target)) := by
  intro machine machine' hsize hmatches
  have hmade : Machine.Matches ρ { machine with functions := machine.functions + 1 }
      { machine' with functions := machine.functions + 1 } :=
    { hmatches with functions := rfl }
  rw [makeFunction, makeFunction, hmatches.functions]
  exact .done hmade le_rfl (Value.all_function_iff.mpr (htarget.trans_le hsize))

end Run

/-! ### Loops -/

namespace Evaluation

open Run

variable {size : Nat}

theorem followedBy_values {evaluate evaluate' : α → Run Value} {items : List α}
    (hitems : ∀ item ∈ items, (evaluate item).FollowedBy ρ .single size (evaluate' item)) :
    (values evaluate items).FollowedBy ρ .listed size (values evaluate' items) := by
  induction items generalizing size with
  | nil =>
    refine followedBy_pure ?_ rfl
    rintro found ⟨⟩
    exact List.forall_mem_nil _
  | cons item rest ih =>
    rw [values, values]
    refine (hitems item (.head _)).bind fun grown found hgrown hfound ↦ ?_
    have hrest : (values evaluate rest).FollowedBy ρ .listed grown (values evaluate' rest) :=
      ih fun next hnext ↦ (hitems next (.tail _ hnext)).mono hgrown
    cases found with
    | error failure => exact followedBy_pure (Results.formed_error failure) rfl
    | _ =>
      dsimp only [Results.single, Value.renumber]
      refine hrest.bind fun larger result hlarger hresult ↦ ?_
      cases result with
      | error failure => exact followedBy_pure (Results.formed_error failure) rfl
      | ok others =>
        refine followedBy_pure ?_ rfl
        rintro all ⟨⟩
        exact List.forall_mem_cons.mpr
          ⟨Value.formed_mono hlarger hfound, hresult others rfl⟩

theorem followedBy_bindArguments {evaluate evaluate' : α → Run Value} (target : FrameId)
    {parameters : List Identifier} {arguments : List α}
    (harguments : ∀ argument ∈ arguments,
      (evaluate argument).FollowedBy ρ .single size (evaluate' argument)) :
    (bindArguments evaluate target parameters arguments).FollowedBy ρ .failed size
      (bindArguments evaluate' (ρ target) parameters arguments) := by
  induction arguments generalizing parameters size with
  | nil => cases parameters <;> exact followedBy_pure trivial rfl
  | cons argument rest ih =>
    cases parameters with
    | nil => exact followedBy_pure trivial rfl
    | cons parameter parameters =>
      rw [bindArguments, bindArguments]
      refine (harguments argument (.head _)).bind fun grown found hgrown hfound ↦ ?_
      cases found with
      | error failure => exact followedBy_pure trivial rfl
      | _ =>
        refine (followedBy_setVariable target parameter.value hfound).bind
          fun larger _ hlarger _ ↦ ?_
        exact ih fun next hnext ↦ (harguments next (.tail _ hnext)).mono (hgrown.trans hlarger)

theorem formed_put {done : List (Key × Value)} {found : Value} (key : Key)
    (hdone : (Value.hash done).All (Value.IsFormed size))
    (hfound : found.All (Value.IsFormed size)) :
    (Value.hash (Entries.put key found done)).All (Value.IsFormed size) := by
  obtain ⟨hkeys, hvalues⟩ := Value.formed_hash_iff.mp hdone
  refine Value.formed_hash_iff.mpr ⟨Entries.nodup_keys_put hkeys key found, fun pair hmem ↦ ?_⟩
  rcases Entries.mem_put hmem with rfl | hmem
  · exact hfound
  · exact hvalues pair hmem

theorem followedBy_hashPairs {evaluate evaluate' : α → Run Value} {pairs : List (α × α)}
    {done : List (Key × Value)}
    (hpairs : ∀ pair ∈ pairs, (evaluate pair.1).FollowedBy ρ .single size (evaluate' pair.1) ∧
      (evaluate pair.2).FollowedBy ρ .single size (evaluate' pair.2))
    (hdone : (Value.hash done).All (Value.IsFormed size)) :
    (hashPairs evaluate pairs done).FollowedBy ρ .single size
      (hashPairs evaluate' pairs (Entries.mapValues (Value.renumber ρ) done)) := by
  induction pairs generalizing done size with
  | nil => exact followedBy_pure hdone (Value.renumber_hash done).symm
  | cons pair rest ih =>
    obtain ⟨key, given⟩ := pair
    obtain ⟨hkey, hgiven⟩ := hpairs _ (.head _)
    rw [hashPairs, hashPairs]
    refine hkey.andThen fun grown k hgrown _ ↦ ?_
    rw [Value.key?_renumber]
    cases k.key? with
    | none =>
      rw [Value.invalidHashKey, Value.invalidHashKey, Value.typeName_renumber]
      exact followedBy_pure (Value.formed_of_isPlain rfl) rfl
    | some found =>
      refine (hgiven.mono hgrown).andThen fun larger v hlarger hv ↦ ?_
      rw [Entries.put_mapValues]
      have hsize := hgrown.trans hlarger
      refine ih (fun next hnext ↦ ?_) (formed_put found (Value.formed_mono hsize hdone) hv)
      obtain ⟨hnextKey, hnextGiven⟩ := hpairs next (.tail _ hnext)
      exact ⟨hnextKey.mono hsize, hnextGiven.mono hsize⟩

theorem followedBy_runEach {execute execute' : α → Run (Option Value)} {statements : List α}
    {result : Option Value}
    (hstatements : ∀ statement ∈ statements,
      (execute statement).FollowedBy ρ .optional size (execute' statement))
    (hresult : Results.optional.Formed size result) :
    (runEach execute result statements).FollowedBy ρ .optional size
      (runEach execute' (result.map (Value.renumber ρ)) statements) := by
  induction statements generalizing result size with
  | nil => exact followedBy_pure hresult rfl
  | cons statement rest ih =>
    rw [runEach, runEach]
    refine (hstatements statement (.head _)).bind fun grown found hgrown hfound ↦ ?_
    have hrest := ih (fun next hnext ↦ (hstatements next (.tail _ hnext)).mono hgrown) hfound
    cases found with
    | none => exact hrest
    | some found =>
      cases found with
      | returned inner => exact followedBy_pure hfound rfl
      | error failure => exact followedBy_pure hfound rfl
      | _ => exact hrest

theorem orNull_renumber (result : Option Value) :
    orNull (result.map (Value.renumber ρ)) = (orNull result).renumber ρ := by
  cases result <;> rfl

theorem formed_orNull {result : Option Value} (h : Results.optional.Formed size result) :
    (orNull result).All (Value.IsFormed size) := by
  cases result with
  | none => exact Value.formed_of_isPlain rfl
  | some found => exact h found rfl

theorem callResult_renumber (result : Option Value) :
    callResult (result.map (Value.renumber ρ)) = (callResult result).renumber ρ := by
  cases result with
  | none => rfl
  | some found => cases found <;> rfl

theorem formed_callResult {result : Option Value} (h : Results.optional.Formed size result) :
    (callResult result).All (Value.IsFormed size) := by
  unfold callResult
  split
  · exact Value.formed_returned_iff.mp (h _ rfl)
  · exact formed_orNull h

end Evaluation

/-! ### Builtin functions -/

namespace Builtin

open Run

variable {room : Room} {size : Nat} {values : List Value}

theorem followedBy_printEach (room : Room) (values : List Value) :
    (printEach room values).FollowedBy ρ .unit size
      (printEach room (values.map (Value.renumber ρ))) := by
  induction values generalizing size with
  | nil => exact followedBy_pure trivial rfl
  | cons found rest ih =>
    rw [List.map_cons, printEach, printEach]
    exact (followedBy_print room found).bind fun _ _ _ _ ↦ ih

theorem followedBy_invalidArgument (builtin : Builtin) (values : List Value) :
    (pure (builtin.invalidArgument (values.headD .null)) : Run Value).FollowedBy ρ .single size
      (pure (builtin.invalidArgument ((values.map (Value.renumber ρ)).headD .null))) := by
  refine followedBy_pure (Value.formed_of_isPlain rfl) ?_
  cases values with
  | nil => rfl
  | cons found rest =>
    show builtin.invalidArgument (found.renumber ρ) = builtin.invalidArgument found
    rw [invalidArgument, invalidArgument, Value.typeName_renumber]

theorem followedBy_result_array (builtin : Builtin) {elements : List Value}
    (harray : (Value.array elements).All (Value.IsFormed size)) :
    (builtin.result room [.array elements]).FollowedBy ρ .single size
      (builtin.result room [.array (elements.map (Value.renumber ρ))]) := by
  have helements := Value.formed_array_iff.mp harray
  cases builtin with
  | len =>
    show (pure (.integer elements.length) : Run Value).FollowedBy ρ .single size
      (pure (.integer (elements.map (Value.renumber ρ)).length))
    rw [List.length_map]
    exact followedBy_plain rfl
  | first =>
    cases elements with
    | nil => exact followedBy_plain rfl
    | cons element rest => exact followedBy_pure (helements element (.head _)) rfl
  | last =>
    show (pure (elements.getLast?.getD .null) : Run Value).FollowedBy ρ .single size
      (pure ((elements.map (Value.renumber ρ)).getLast?.getD .null))
    rw [List.getLast?_map]
    cases hlast : elements.getLast? with
    | none => exact followedBy_plain rfl
    | some element => exact followedBy_pure (helements element (List.mem_of_getLast? hlast)) rfl
  | rest =>
    show (pure (.array elements.tail) : Run Value).FollowedBy ρ .single size
      (pure (.array (elements.map (Value.renumber ρ)).tail))
    rw [← List.map_tail, ← Value.renumber_array]
    refine followedBy_pure (Value.formed_array_iff.mpr fun element helement ↦ ?_) rfl
    exact helements element (List.mem_of_mem_tail helement)
  | push => exact followedBy_plain rfl
  | puts =>
    rw [← Value.renumber_array]
    exact (followedBy_printEach room [.array elements]).bind fun _ _ _ _ ↦ followedBy_plain rfl

theorem followedBy_result (builtin : Builtin)
    (hvalues : ∀ found ∈ values, found.All (Value.IsFormed size)) :
    (builtin.result room values).FollowedBy ρ .single size
      (builtin.result room (values.map (Value.renumber ρ))) := by
  have hinvalid : (pure (builtin.invalidArgument (values.headD .null)) : Run Value).FollowedBy ρ
      .single size (pure (builtin.invalidArgument ((values.map (Value.renumber ρ)).headD .null))) :=
    followedBy_invalidArgument builtin values
  cases builtin with
  | puts => exact (followedBy_printEach room values).bind fun _ _ _ _ ↦ followedBy_plain rfl
  | push =>
    rcases values with _ | ⟨found, _ | ⟨item, _ | ⟨other, rest⟩⟩⟩
    · exact hinvalid
    · cases found <;> exact hinvalid
    · cases found with
      | array elements =>
        have helements := Value.formed_array_iff.mp (hvalues _ (.head _))
        have hitem := hvalues item (.tail _ (.head _))
        rw [List.map_cons, Value.renumber_array]
        refine followedBy_pure (Value.formed_array_iff.mpr ?_) ?_
        · exact List.forall_mem_append.mpr ⟨helements, List.forall_mem_singleton.mpr hitem⟩
        · show _ = (Value.array (elements ++ [item])).renumber ρ
          rw [Value.renumber_array, List.map_append]
          rfl
      | _ => exact hinvalid
    · cases found <;> exact hinvalid
  | len =>
    rcases values with _ | ⟨found, _ | ⟨other, rest⟩⟩
    · exact hinvalid
    · cases found with
      | string s => exact followedBy_plain rfl
      | array elements =>
        rw [List.map_singleton, Value.renumber_array]
        exact followedBy_result_array .len (hvalues _ (.head _))
      | _ => exact hinvalid
    · cases found <;> exact hinvalid
  | first | last | rest =>
    rcases values with _ | ⟨found, _ | ⟨other, others⟩⟩
    · exact hinvalid
    · cases found with
      | array elements =>
        rw [List.map_singleton, Value.renumber_array]
        exact followedBy_result_array _ (hvalues _ (.head _))
      | _ => exact hinvalid
    · cases found <;> exact hinvalid

theorem followedBy_call (builtin : Builtin)
    (hvalues : ∀ found ∈ values, found.All (Value.IsFormed size)) :
    (builtin.call room values).FollowedBy ρ .single size
      (builtin.call room (values.map (Value.renumber ρ))) := by
  rw [call, call, List.length_map]
  split
  · split_ifs
    · exact followedBy_result builtin hvalues
    · exact followedBy_pure (Value.formed_of_isPlain rfl) rfl
  · exact followedBy_result builtin hvalues

end Builtin

/-! ### The evaluator -/

namespace Evaluation

open Run

variable {settings : Settings} {depth size : Nat} {frame : FrameId}

theorem followedBy_noteCall (settings : Settings) (room : Room) (callee : Expr) (count : Nat) :
    (noteCall settings room callee count).FollowedBy ρ .unit size
      (noteCall settings room callee count) :=
  followedBy_note settings 2 rfl rfl

theorem followedBy_noteBuiltin (settings : Settings) (room : Room) (builtin : Builtin)
    (values : List Value) :
    (noteBuiltin settings room builtin values).FollowedBy ρ .unit size
      (noteBuiltin settings room builtin (values.map (Value.renumber ρ))) := by
  have hinspect : Value.inspect ∘ Value.renumber ρ = Value.inspect :=
    funext Value.inspect_renumber
  refine followedBy_note settings 3 ?_ ?_
  · rw [← Value.renumberEach_eq_map, Value.inspectDepthIn_renumberEach]
  · rw [List.map_map, hinspect]

theorem followedBy_noteBinding (settings : Settings) (room : Room) (name : String)
    (found : Value) :
    (noteBinding settings room name found).FollowedBy ρ .unit size
      (noteBinding settings room name (found.renumber ρ)) :=
  followedBy_note settings 2 (by rw [Value.inspectDepth_renumber])
    (by rw [Value.inspect_renumber])

theorem followedBy_noteCondition (settings : Settings) (room : Room) (found : Value) :
    (noteCondition settings room found).FollowedBy ρ .unit size
      (noteCondition settings room (found.renumber ρ)) :=
  followedBy_note settings 3 (by rw [Value.inspectDepth_renumber])
    (by rw [Value.inspect_renumber, Value.truthy_renumber])

theorem followedBy_noteStatement (settings : Settings) (room : Room) (statement : Stmt)
    (result : Option Value) :
    (noteStatement settings room statement result).FollowedBy ρ .unit size
      (noteStatement settings room statement (result.map (Value.renumber ρ))) := by
  refine followedBy_note settings 1 ?_ ?_
  · cases result with
    | none => rfl
    | some found =>
      simp only [statementObstacle?, Option.map_some, Value.inspectDepth_renumber]
  · cases result with
    | none => rfl
    | some found => rw [Option.map_some, Option.map_some, Option.map_some, Value.inspect_renumber]

/-- Traces a call and runs the body of its function in the frame of the call. -/
def runBody (settings : Settings) (depth : Nat) (callee : Expr) (count : Nat) (body : Block)
    (inner : FrameId) : Run Value := do
  noteCall settings (some depth) callee count
  return callResult (← execute settings depth (.block body) inner)

theorem followedBy_identifier (settings : Settings) (name : String) (frame : FrameId) :
    (identifier settings name frame).FollowedBy ρ .single size
      (identifier settings name (ρ frame)) := by
  rw [identifier, identifier]
  refine (followedBy_getVariable frame name).bind fun grown result _ hresult ↦ ?_
  cases result with
  | some found => exact followedBy_pure (hresult found rfl) rfl
  | none =>
    dsimp only [Results.optional, Option.map_none]
    split
    · exact followedBy_plain rfl
    · exact followedBy_plain rfl

/-- The evaluating functions are followed by themselves in the frame with the other number, when
`depth` nested steps are allowed. -/
structure FollowedAt (ρ : FrameId → FrameId) (settings : Settings) (depth : Nat) : Prop where
  evaluate : ∀ {size : Nat} {frame : FrameId}, frame < size → ∀ expression : Expr,
    (evaluate settings depth expression frame).FollowedBy ρ .single size
      (evaluate settings depth expression (ρ frame))
  evaluateEach : ∀ {size : Nat} {frame : FrameId}, frame < size → ∀ expressions : List Expr,
    (evaluateEach settings depth expressions frame).FollowedBy ρ .listed size
      (evaluateEach settings depth expressions (ρ frame))
  hashLiteral : ∀ {size : Nat} {frame : FrameId}, frame < size → ∀ pairs : List (Expr × Expr),
    (hashLiteral settings depth pairs frame).FollowedBy ρ .single size
      (hashLiteral settings depth pairs (ρ frame))
  conditional : ∀ {size : Nat} {frame : FrameId}, frame < size →
    ∀ (condition : Expr) (consequence : Block) (alternative : Option Block),
      (conditional settings depth condition consequence alternative frame).FollowedBy ρ .single size
        (conditional settings depth condition consequence alternative (ρ frame))
  call : ∀ {size : Nat} {frame : FrameId}, frame < size →
    ∀ (callee : Expr) (arguments : List Expr),
      (call settings depth callee arguments frame).FollowedBy ρ .single size
        (call settings depth callee arguments (ρ frame))
  execute : ∀ {size : Nat} {frame : FrameId}, frame < size → ∀ statement : Stmt,
    (execute settings depth statement frame).FollowedBy ρ .optional size
      (execute settings depth statement (ρ frame))
  executeEach : ∀ {size : Nat} {frame : FrameId}, frame < size → ∀ statements : List Stmt,
    (executeEach settings depth statements frame).FollowedBy ρ .optional size
      (executeEach settings depth statements (ρ frame))

namespace FollowedAt

theorem zero : FollowedAt ρ settings 0 := by
  constructor
  all_goals
    intros
    simp only [Evaluation.evaluate, Evaluation.evaluateEach, Evaluation.hashLiteral,
      Evaluation.conditional, Evaluation.call, Evaluation.execute, Evaluation.executeEach]
    exact followedBy_halt _

theorem evaluate_succ (h : FollowedAt ρ settings depth) (hframe : frame < size)
    (expression : Expr) :
    (Evaluation.evaluate settings (depth + 1) expression frame).FollowedBy ρ .single size
      (Evaluation.evaluate settings (depth + 1) expression (ρ frame)) := by
  have hevaluate (expression : Expr) := h.evaluate hframe expression
  cases expression with
  | integer | string | boolean =>
    rw [Evaluation.evaluate, Evaluation.evaluate]
    exact followedBy_plain rfl
  | identifier name =>
    rw [Evaluation.evaluate, Evaluation.evaluate]
    exact followedBy_identifier settings name.value frame
  | function origin parameters body =>
    rw [Evaluation.evaluate, Evaluation.evaluate]
    exact followedBy_makeFunction parameters body hframe
  | unary origin operator right =>
    rw [Evaluation.evaluate, Evaluation.evaluate]
    refine (hevaluate right).andThen fun grown found _ _ ↦ ?_
    rw [Value.unary_renumber]
    exact followedBy_pure (Value.formed_of_isPlain (Value.isPlain_unary _ _)) rfl
  | binary origin left operator right =>
    rw [Evaluation.evaluate, Evaluation.evaluate]
    refine (hevaluate left).andThen fun grown a hgrown _ ↦ ?_
    refine ((hevaluate right).mono hgrown).andThen fun larger b _ _ ↦ ?_
    rw [Value.binary_renumber]
    exact followedBy_pure (Value.formed_of_isPlain (Value.isPlain_binary _ _ _)) rfl
  | index origin left place =>
    rw [Evaluation.evaluate, Evaluation.evaluate]
    refine (hevaluate left).andThen fun grown found hgrown hfound ↦ ?_
    refine ((hevaluate place).mono hgrown).andThen fun larger spot hlarger _ ↦ ?_
    rw [Value.index_renumber]
    exact followedBy_pure (Value.all_index (fun _ ↦ Value.isFormed_of_isPlain)
      (Value.formed_mono hlarger hfound) spot) rfl
  | conditional origin condition consequence alternative =>
    rw [Evaluation.evaluate, Evaluation.evaluate]
    exact h.conditional hframe condition consequence alternative
  | call origin callee arguments =>
    rw [Evaluation.evaluate, Evaluation.evaluate]
    exact h.call hframe callee arguments
  | array origin elements =>
    rw [Evaluation.evaluate, Evaluation.evaluate]
    refine (h.evaluateEach hframe elements).bind fun grown result _ hresult ↦ ?_
    cases result with
    | error failure => exact followedBy_plain rfl
    | ok values =>
      exact followedBy_pure (Value.formed_array_iff.mpr (hresult values rfl))
        (Value.renumber_array values).symm
  | hash origin pairs =>
    rw [Evaluation.evaluate, Evaluation.evaluate]
    exact h.hashLiteral hframe pairs

theorem evaluateEach_succ (h : FollowedAt ρ settings depth) (hframe : frame < size)
    (expressions : List Expr) :
    (Evaluation.evaluateEach settings (depth + 1) expressions frame).FollowedBy ρ .listed size
      (Evaluation.evaluateEach settings (depth + 1) expressions (ρ frame)) := by
  rw [Evaluation.evaluateEach, Evaluation.evaluateEach]
  exact followedBy_values fun expression _ ↦ h.evaluate hframe expression

theorem hashLiteral_succ (h : FollowedAt ρ settings depth) (hframe : frame < size)
    (pairs : List (Expr × Expr)) :
    (Evaluation.hashLiteral settings (depth + 1) pairs frame).FollowedBy ρ .single size
      (Evaluation.hashLiteral settings (depth + 1) pairs (ρ frame)) := by
  rw [Evaluation.hashLiteral, Evaluation.hashLiteral]
  have hempty : (Value.hash []).All (Value.IsFormed size) :=
    Value.formed_hash_iff.mpr ⟨List.nodup_nil, List.forall_mem_nil _⟩
  exact followedBy_hashPairs
    (fun pair _ ↦ ⟨h.evaluate hframe pair.1, h.evaluate hframe pair.2⟩) hempty

theorem conditional_succ (h : FollowedAt ρ settings depth) (hframe : frame < size)
    (condition : Expr) (consequence : Block) (alternative : Option Block) :
    (Evaluation.conditional settings (depth + 1) condition consequence alternative
        frame).FollowedBy ρ .single size
      (Evaluation.conditional settings (depth + 1) condition consequence alternative
        (ρ frame)) := by
  have hbranch {grown : Nat} (hgrown : size ≤ grown) (block : Block) :
      (Evaluation.execute settings depth (.block block) frame >>= fun result ↦
          pure (orNull result)).FollowedBy ρ .single grown
        (Evaluation.execute settings depth (.block block) (ρ frame) >>= fun result ↦
          pure (orNull result)) := by
    refine (h.execute (hframe.trans_le hgrown) (.block block)).bind fun _ result _ hresult ↦ ?_
    exact followedBy_pure (formed_orNull hresult) (orNull_renumber result)
  rw [Evaluation.conditional.eq_def, Evaluation.conditional.eq_def]
  refine (h.evaluate hframe condition).andThen fun grown found hgrown _ ↦ ?_
  refine (followedBy_noteCondition settings (some depth) found).bind fun larger _ hlarger _ ↦ ?_
  have hsize := hgrown.trans hlarger
  rw [Value.truthy_renumber]
  split_ifs
  · exact hbranch hsize consequence
  · cases alternative with
    | none => exact followedBy_plain rfl
    | some block => exact hbranch hsize block

theorem runBody (h : FollowedAt ρ settings depth) (callee : Expr) (count : Nat) (body : Block)
    {inner : FrameId} (hinner : inner < size) :
    (runBody settings depth callee count body inner).FollowedBy ρ .single size
      (Evaluation.runBody settings depth callee count body (ρ inner)) := by
  refine (followedBy_noteCall settings (some depth) callee count).bind fun noted _ hnoted _ ↦ ?_
  refine (h.execute (hinner.trans_le hnoted) (.block body)).bind fun _ result _ hresult ↦ ?_
  exact followedBy_pure (formed_callResult hresult) (callResult_renumber result)

theorem call_succ (h : FollowedAt ρ settings depth) (hframe : frame < size) (callee : Expr)
    (arguments : List Expr) :
    (Evaluation.call settings (depth + 1) callee arguments frame).FollowedBy ρ .single size
      (Evaluation.call settings (depth + 1) callee arguments (ρ frame)) := by
  rw [Evaluation.call, Evaluation.call]
  refine (h.evaluate hframe callee).andThen fun grown found hgrown hfound ↦ ?_
  have hframe' := hframe.trans_le hgrown
  cases found with
  | function closure =>
    dsimp only [Value.renumber]
    have houter : closure.frame < grown := Value.all_function_iff.mp hfound
    refine (followedBy_openFrame houter).bind fun opened inner hopened hinner ↦ ?_
    refine (followedBy_bindArguments inner fun argument _ ↦
      h.evaluate (hframe'.trans_le hopened) argument).bind fun bound result hbound _ ↦ ?_
    cases result with
    | some failure => exact followedBy_plain rfl
    | none => exact h.runBody callee arguments.length closure.body (hinner.trans_le hbound)
  | builtin builtin =>
    dsimp only [Value.renumber]
    refine (h.evaluateEach hframe' arguments).bind fun larger result _ hresult ↦ ?_
    cases result with
    | error failure => exact followedBy_plain rfl
    | ok values =>
      refine (followedBy_noteBuiltin settings (some depth) builtin values).bind
        fun noted _ hnoted _ ↦ ?_
      refine builtin.followedBy_call fun found hmem ↦ ?_
      exact Value.formed_mono hnoted (hresult values rfl found hmem)
  | _ => exact followedBy_plain rfl

theorem execute_succ (h : FollowedAt ρ settings depth) (hframe : frame < size)
    (statement : Stmt) :
    (Evaluation.execute settings (depth + 1) statement frame).FollowedBy ρ .optional size
      (Evaluation.execute settings (depth + 1) statement (ρ frame)) := by
  cases statement with
  | expression origin expression =>
    rw [Evaluation.execute, Evaluation.execute]
    exact (h.evaluate hframe expression).bind fun _ _ _ hfound ↦
      followedBy_pure (Results.formed_some hfound) rfl
  | block block =>
    rw [Evaluation.execute, Evaluation.execute]
    exact h.executeEach hframe block.statements
  | returning origin expression =>
    rw [Evaluation.execute, Evaluation.execute]
    refine (h.evaluate hframe expression).bind fun _ found _ hfound ↦ ?_
    cases found with
    | error failure => exact followedBy_pure (Results.formed_some hfound) rfl
    | _ => exact followedBy_pure (Results.formed_some (Value.formed_returned_iff.mpr hfound)) rfl
  | binding origin name expression =>
    rw [Evaluation.execute, Evaluation.execute]
    refine (h.evaluate hframe expression).bind fun grown found _ hfound ↦ ?_
    have hbound : (setVariable frame name.value found >>= fun _ ↦
          noteBinding settings (some depth) name.value found >>= fun _ ↦
            pure none).FollowedBy ρ .optional grown
        (setVariable (ρ frame) name.value (found.renumber ρ) >>= fun _ ↦
          noteBinding settings (some depth) name.value (found.renumber ρ) >>= fun _ ↦
            pure none) :=
      (followedBy_setVariable frame name.value hfound).bind fun _ _ _ _ ↦
        (followedBy_noteBinding settings (some depth) name.value found).bind fun _ _ _ _ ↦
          followedBy_pure Results.formed_none rfl
    cases found with
    | error failure => exact followedBy_pure (Results.formed_some hfound) rfl
    | _ => exact hbound

theorem executeEach_succ (h : FollowedAt ρ settings depth) (hframe : frame < size)
    (statements : List Stmt) :
    (Evaluation.executeEach settings (depth + 1) statements frame).FollowedBy ρ .optional size
      (Evaluation.executeEach settings (depth + 1) statements (ρ frame)) := by
  rw [Evaluation.executeEach, Evaluation.executeEach]
  exact followedBy_runEach (fun statement _ ↦ h.execute hframe statement) Results.formed_none

theorem succ (h : FollowedAt ρ settings depth) : FollowedAt ρ settings (depth + 1) where
  evaluate := h.evaluate_succ
  evaluateEach := h.evaluateEach_succ
  hashLiteral := h.hashLiteral_succ
  conditional := h.conditional_succ
  call := h.call_succ
  execute := h.execute_succ
  executeEach := h.executeEach_succ

end FollowedAt

theorem followedAt (ρ : FrameId → FrameId) (settings : Settings) (depth : Nat) :
    FollowedAt ρ settings depth := by
  induction depth with
  | zero => exact .zero
  | succ depth ih => exact ih.succ

theorem followedBy_programResult (ρ : FrameId → FrameId) (settings : Settings)
    (hframe : frame < size) (statements : List Stmt) {result : Option Value}
    (hresult : Results.optional.Formed size result) :
    (programResult settings frame result statements).FollowedBy ρ .optional size
      (programResult settings (ρ frame) (result.map (Value.renumber ρ)) statements) := by
  induction statements generalizing result size with
  | nil => exact followedBy_pure hresult rfl
  | cons statement rest ih =>
    rw [programResult, programResult]
    refine ((followedAt ρ settings _).execute hframe statement).bind
      fun grown found hgrown hfound ↦ ?_
    refine (followedBy_noteStatement settings _ statement found).bind fun larger _ hlarger _ ↦ ?_
    have hfound := Results.optional.mono hlarger hfound
    have hrest := ih (hframe.trans_le (hgrown.trans hlarger)) hfound
    cases found with
    | none => exact hrest
    | some found =>
      cases found with
      | returned inner =>
        refine followedBy_pure (Results.formed_some ?_) rfl
        exact Value.formed_returned_iff.mp (hfound _ rfl)
      | error failure => exact followedBy_pure hfound rfl
      | _ => exact hrest

end Evaluation

/-! ### Runs that keep scopes well formed -/

/-- The scopes are well formed and have at least so many frames, and a result is formed. -/
def Outcome.IsFormed (R : Results α) (size : Nat) : Outcome α → Prop
  | .done found machine => machine.scopes.WellFormed ∧ size ≤ machine.scopes.frames.size ∧
      R.Formed machine.scopes.frames.size found
  | .halted _ machine => machine.scopes.WellFormed ∧ size ≤ machine.scopes.frames.size

theorem Outcome.FollowedBy.isFormed {R : Results α} {size : Nat} {outcome outcome' : Outcome α}
    (h : outcome.FollowedBy ρ R size outcome') : outcome.IsFormed R size := by
  cases h with
  | done hmatches hsize hformed => exact ⟨hmatches.wellFormed, hsize, hformed⟩
  | halted hmatches hsize => exact ⟨hmatches.wellFormed, hsize⟩

theorem Run.FollowedBy.isFormed {R : Results α} {size : Nat} {run run' : Run α}
    (h : run.FollowedBy id R size run') {machine : Machine}
    (hsize : size ≤ machine.scopes.frames.size) (hmachine : machine.scopes.WellFormed) :
    (run machine).IsFormed R machine.scopes.frames.size :=
  (h machine machine hsize (Machine.matches_self hmachine)).isFormed

theorem Run.FollowedBy.of_done {R : Results α} {size : Nat} {run run' : Run α}
    (h : run.FollowedBy id R size run') {machine after : Machine} {found : α}
    (hrun : run machine = .done found after) (hsize : size ≤ machine.scopes.frames.size)
    (hmachine : machine.scopes.WellFormed) :
    after.scopes.WellFormed ∧ machine.scopes.frames.size ≤ after.scopes.frames.size ∧
      R.Formed after.scopes.frames.size found := by
  have hformed := h.isFormed hsize hmachine
  rwa [hrun] at hformed

end MonkeyLang
