import Mathlib.Tactic
import MonkeyLang.Proofs.Evaluation.Formation

/-!
# Hash literals as finite maps

The pairs of a hash literal are evaluated in order, each key before its value. If every key turns
out to be one and no value is an error, the entries that they give (`Gathers`) make a finite map:
each key stands once, where it was first given, and is indexed to the value that was given last
(`IsHashOf`). Keys are equal only if they are of the same type, since `Key` has a case for each of
the three types.

Otherwise the literal gives the first error: that of a key, of a key that can be none, or of a
value, and nothing behind is evaluated.

No other way leads to a hash, so in every state of a run the keys of all hashes are distinct.
-/

set_option autoImplicit false

namespace MonkeyLang

namespace Evaluation

variable {α : Type} {machine final : Machine}

/-! ### The entries of a literal -/

/-- The pairs are evaluated one after the other and give these entries. -/
inductive Gathers (evaluate : α → Run Value) :
    List (α × α) → List (Key × Value) → Machine → Machine → Prop
  | nil {machine : Machine} : Gathers evaluate [] [] machine machine
  | cons {pair : α × α} {pairs : List (α × α)} {key : Key} {value : Value}
    {entries : List (Key × Value)} {machine middle after final : Machine}
    (hkey : evaluate pair.1 machine = .done key.toValue middle)
    (hvalue : evaluate pair.2 middle = .done value after) (hgoesOn : value.isError = false)
    (hrest : Gathers evaluate pairs entries after final) :
    Gathers evaluate (pair :: pairs) ((key, value) :: entries) machine final

theorem hashPairs_of_gathers {evaluate : α → Run Value} {pairs : List (α × α)}
    {entries : List (Key × Value)} (h : Gathers evaluate pairs entries machine final)
    (done : List (Key × Value)) :
    hashPairs evaluate pairs done machine = .done (.hash (Entries.putAll entries done)) final := by
  induction h generalizing done with
  | nil => rfl
  | cons hkey hvalue hgoesOn _ ih =>
    rename_i pair pairs key value entries _ _ _ _ _
    have hfound : key.toValue.key? = some key := Value.key?_eq_some_iff.mpr rfl
    have hkeyGoesOn : key.toValue.isError = false := by cases key <;> rfl
    rw [hashPairs, Run.andThen_of_done hkey hkeyGoesOn, hfound]
    dsimp only
    rw [Run.andThen_of_done hvalue hgoesOn, ih]
    rfl

/-- The pairs give entries exactly if a hash goes on with each of them. -/
theorem passes_iff_exists_gathers {evaluate : α → Run Value} {pairs : List (α × α)} :
    Passes (evaluatePair evaluate) IsEntry pairs machine final ↔
      ∃ entries, Gathers evaluate pairs entries machine final := by
  constructor
  · intro h
    induction h with
    | nil => exact ⟨[], .nil⟩
    | cons hpair hentry _ ih =>
      obtain ⟨entries, hrest⟩ := ih
      obtain ⟨middle, hkey, hvalue⟩ := evaluatePair_eq_done_iff.mp hpair
      obtain ⟨key, hfound⟩ := Option.isSome_iff_exists.mp hentry.1
      rw [Value.key?_eq_some_iff.mp hfound] at hkey
      exact ⟨_ :: entries, .cons hkey hvalue hentry.2 hrest⟩
  · rintro ⟨entries, h⟩
    induction h with
    | nil => exact .nil
    | cons hkey hvalue hgoesOn _ ih =>
      rename_i pair _ key value _ machine _ after _ _
      have hpair : evaluatePair evaluate pair machine = .done (key.toValue, value) after :=
        evaluatePair_eq_done_iff.mpr ⟨_, hkey, hvalue⟩
      have hfound : key.toValue.key? = some key := Value.key?_eq_some_iff.mpr rfl
      exact .cons hpair ⟨Option.isSome_iff_exists.mpr ⟨key, hfound⟩, hgoesOn⟩ ih

/-! ### Indexing -/

/-- The keys of the hash are those of the entries, once each and in the order of their first
occurrence, and each of them is indexed to its last value. -/
structure IsHashOf (entries found : List (Key × Value)) : Prop where
  nodup : (Entries.keys found).Nodup
  order : Entries.keys found = (Entries.keys entries).eraseDups
  last : ∀ {before after : List (Key × Value)} {key : Key} {value : Value},
    entries = before ++ (key, value) :: after → key ∉ Entries.keys after →
      Value.index (.hash found) key.toValue = value
  missing : ∀ {key : Key}, key ∉ Entries.keys entries →
    Value.index (.hash found) key.toValue = .null

theorem index_toValue (pairs : List (Key × Value)) (key : Key) :
    Value.index (.hash pairs) key.toValue = (Entries.get? pairs key).getD .null := by
  have hkey : key.toValue.key? = some key := Value.key?_eq_some_iff.mpr rfl
  rw [Value.index, hkey]

theorem isHashOf_putAll (entries : List (Key × Value)) :
    IsHashOf entries (Entries.putAll entries []) where
  nodup := by
    have hempty : (Entries.keys ([] : List (Key × Value))).Nodup := List.nodup_nil
    exact Entries.nodup_keys_putAll hempty entries
  order := Entries.keys_putAll_nil entries
  last {before after key value} heq hlast := by
    rw [index_toValue, heq, Entries.get?_putAll_of_last before hlast]
    rfl
  missing hmissing := by
    rw [index_toValue, Entries.get?_putAll_of_not_mem hmissing]
    rfl

end Evaluation

open Evaluation

/-! ### Literals, and all hashes of a run -/

/-- If the pairs of a hash literal give entries, the literal is the finite map that they make. It
gives an error exactly if one of the pairs fails after those before it have given entries, and it
then leaves what that pair has left. After programs have been run one after the other, and before
and after everything that they evaluate on the way, all hashes have distinct keys. -/
theorem hash_literals_are_finite_maps (settings : Settings) (depth : Nat) (origin : Origin)
    (pairs : List (Expr × Expr)) (frame : FrameId) (machine final : Machine) :
    let evaluated (expression : Expr) := evaluate settings depth expression frame
    let literal := evaluate settings (depth + 2) (.hash origin pairs) frame machine
    (∀ entries, Gathers evaluated pairs entries machine final →
      ∃ found, literal = .done (.hash found) final ∧ IsHashOf entries found) ∧
    (∀ failure, literal = .done (.error failure) final ↔
      ∃ before pair rest middle, pairs = before ++ pair :: rest ∧
        (∃ entries, Gathers evaluated before entries machine middle) ∧
          PairFails evaluated failure final pair middle) ∧
    ∀ programs : List (Settings × Program),
      (∀ outcome ∈ Program.outcomes topFrame programs Machine.start,
        outcome.Satisfies Scopes.HaveDistinctKeys
          fun result ↦ ∀ value ∈ result, value.All Value.HasDistinctKeys) ∧
      ∀ entry ∈ Program.activations topFrame programs Machine.start,
        ∀ inner, Relation.ReflTransGen (Starts entry.1) entry.2 inner →
          inner.machine.scopes.HaveDistinctKeys ∧
            inner.Satisfies entry.1 Scopes.HaveDistinctKeys
              (Value.All Value.HasDistinctKeys) := by
  intro evaluated literal
  have hdistinct (frame : FrameId) (scopes : Scopes) (hscopes : scopes.FormedWith frame) :
      scopes.HaveDistinctKeys :=
    hscopes.1.haveDistinctKeys
  refine ⟨fun entries hentries ↦ ?_, fun failure ↦ ?_, fun programs ↦ ⟨fun outcome hmem ↦ ?_,
    fun entry hmem inner hchain ↦ ?_⟩⟩
  · refine ⟨Entries.putAll entries [], ?_, isHashOf_putAll entries⟩
    show evaluate settings (depth + 2) (.hash origin pairs) frame machine = _
    rw [evaluate, hashLiteral]
    exact hashPairs_of_gathers hentries []
  · show evaluate settings (depth + 2) (.hash origin pairs) frame machine = _ ↔ _
    rw [evaluate, hashLiteral_eq_error_iff]
    simp only [passes_iff_exists_gathers]
    rfl
  · exact (Program.outcomes_satisfy
      (fun (entry : Settings × Program) (_ : entry ∈ programs) ↦
        Program.run_formedWith entry.1 entry.2 topFrame) formedWith_start outcome hmem).mono
      (hdistinct topFrame) fun _ ↦ id
  · have hinner := (Program.activations_isFormed formedWith_start entry hmem).of_chain hchain
    exact ⟨hdistinct _ _ hinner, hinner.satisfies (hdistinct _)⟩

/-- With a key that is given twice, another one that differs from it by its type only, and a value
that is made on the way. -/
theorem hash_literals_are_finite_maps_of_repeated_keys :
    let body : Block := .mk default []
    let pairs : List (Expr × Expr) :=
      [(.integer default 1, .string default "a"),
        (.string default "1", .function default [] body),
        (.integer default 1, .string default "b")]
    let entries : List (Key × Value) :=
      [(.integer 1, .string "a"), (.string "1", .function ⟨0, [], body, topFrame⟩),
        (.integer 1, .string "b")]
    let final : Machine := { Machine.start with functions := 1 }
    let program : Program := ⟨[.expression default (.hash default pairs)]⟩
    let outcome := program.run {} topFrame Machine.start
    let activation := program.activation {} topFrame Machine.start
    Gathers (fun expression ↦ evaluate {} 1 expression topFrame) pairs entries Machine.start final ∧
      (∃ found, evaluate {} 3 (.hash default pairs) topFrame Machine.start =
        .done (.hash found) final ∧ IsHashOf entries found) ∧
      outcome ∈ Program.outcomes topFrame [({}, program)] Machine.start ∧
      outcome.Satisfies Scopes.HaveDistinctKeys
        (fun result ↦ ∀ value ∈ result, value.All Value.HasDistinctKeys) ∧
      ({}, activation) ∈ Program.activations topFrame [({}, program)] Machine.start ∧
      Relation.ReflTransGen (Starts {}) activation activation ∧
      activation.machine.scopes.HaveDistinctKeys ∧
      activation.Satisfies {} Scopes.HaveDistinctKeys (Value.All Value.HasDistinctKeys) := by
  intro body pairs entries final program outcome activation
  have hone (machine : Machine) : evaluate {} 1 (.integer default 1) topFrame machine =
      .done (Key.toValue (.integer 1)) machine := by
    rw [evaluate]
    rfl
  have htext (text : String) (machine : Machine) :
      evaluate {} 1 (.string default text) topFrame machine = .done (.string text) machine := by
    rw [evaluate]
    rfl
  have hmade : evaluate {} 1 (.function default [] body) topFrame Machine.start =
      .done (.function ⟨0, [], body, topFrame⟩) final := by
    rw [evaluate]
    rfl
  have hgathers : Gathers (fun expression ↦ evaluate {} 1 expression topFrame) pairs entries
      Machine.start final :=
    .cons (hone _) (htext _ _) rfl
      (.cons (htext _ _) hmade rfl (.cons (hone _) (htext _ _) rfl .nil))
  have houtcome : outcome ∈ Program.outcomes topFrame [({}, program)] Machine.start := .head _
  have hentry : ({}, activation) ∈ Program.activations topFrame [({}, program)] Machine.start :=
    .head _
  obtain ⟨hliteral, -, hstates⟩ :=
    hash_literals_are_finite_maps {} 1 default pairs topFrame Machine.start final
  obtain ⟨houtcomes, hactivations⟩ := hstates [({}, program)]
  exact ⟨hgathers, hliteral entries hgathers, houtcome, houtcomes outcome houtcome, hentry, .refl,
    hactivations _ hentry activation .refl⟩

end MonkeyLang
