import Mathlib.Tactic
import MonkeyLang.Value.Equality
import MonkeyLang.Proofs.Evaluation.HashLiterals

/-!
# Equality of values

Equality compares what values stand for (`Value.Meaning`). An array stands for the list of what its
elements stand for, a function for nothing but itself, and a hash for a map from keys to meanings,
which has no order. Two values are equal exactly if they stand for the same
(`Value.same_iff_meaning_eq`), and therefore equality is an equivalence.

This needs the keys of every hash to be distinct. The comparison of two hashes looks the keys of
the first one up in the second, and that the second has no others follows from their number only.
-/

set_option autoImplicit false

namespace MonkeyLang

namespace Value

instance : DecidablePred HasDistinctKeys
  | .hash pairs => inferInstanceAs (Decidable (Entries.keys pairs).Nodup)
  | .integer _ | .string _ | .boolean _ | .null | .returned _ | .function _ | .array _
  | .builtin _ | .error _ => inferInstanceAs (Decidable True)

/-! ### What values stand for -/

/-- What equality sees of a value: of a function its serial number, and of a hash what is found
under each key. -/
inductive Meaning where
  | key (key : Key)
  | null
  | returned (value : Meaning)
  | function (serial : Nat)
  | array (elements : List Meaning)
  | hash (entries : Key → Option Meaning)
  | builtin (builtin : Builtin)
  | error (failure : Failure)

mutual

def meaning : Value → Meaning
  | .integer n => .key (.integer n)
  | .string s => .key (.string s)
  | .boolean b => .key (.boolean b)
  | .null => .null
  | .returned value => .returned value.meaning
  | .function closure => .function closure.serial
  | .array elements => .array (meaningEach elements)
  | .hash pairs => .hash (Entries.get? (meaningPairs pairs))
  | .builtin b => .builtin b
  | .error failure => .error failure

def meaningEach : List Value → List Meaning
  | [] => []
  | value :: rest => value.meaning :: meaningEach rest

def meaningPairs : List (Key × Value) → List (Key × Meaning)
  | [] => []
  | (key, value) :: rest => (key, value.meaning) :: meaningPairs rest

end

theorem meaningPairs_eq_mapValues (pairs : List (Key × Value)) :
    meaningPairs pairs = Entries.mapValues meaning pairs := by
  induction pairs with
  | nil => rfl
  | cons pair rest ih =>
    rw [meaningPairs, ih]
    rfl

theorem length_meaningPairs (pairs : List (Key × Value)) :
    (meaningPairs pairs).length = pairs.length := by
  rw [meaningPairs_eq_mapValues]
  exact List.length_map _

theorem nodup_keys_meaningPairs {pairs : List (Key × Value)} (h : (Entries.keys pairs).Nodup) :
    (Entries.keys (meaningPairs pairs)).Nodup := by
  rwa [meaningPairs_eq_mapValues, Entries.keys_mapValues]

theorem get?_meaningPairs (pairs : List (Key × Value)) (key : Key) :
    Entries.get? (meaningPairs pairs) key = (Entries.get? pairs key).map meaning := by
  rw [meaningPairs_eq_mapValues, Entries.get?_mapValues]

/-! ### Equal values stand for the same -/

mutual

theorem same_iff_meaning_eq : (left : Value) → left.All HasDistinctKeys →
    (right : Value) → right.All HasDistinctKeys →
      (left.same right = true ↔ left.meaning = right.meaning)
  | .returned left, hleft, right, hright => by
    cases right with
    | returned right =>
      rw [same, meaning, meaning, Meaning.returned.injEq]
      exact same_iff_meaning_eq left hleft.2 right hright.2
    | _ => simp [same, meaning]
  | .array left, hleft, right, hright => by
    cases right with
    | array right =>
      rw [same, meaning, meaning, Meaning.array.injEq]
      exact sameEach_iff_meaningEach_eq left hleft.2 right hright.2
    | _ => simp [same, meaning]
  | .hash left, hleft, right, hright => by
    cases right with
    | hash right =>
      -- Only the keys of `left` are looked up; that both have equally many pairs does the rest.
      rw [same, meaning, meaning, Meaning.hash.injEq, Bool.and_eq_true, decide_eq_true_iff,
        sameUnder_iff_forall_get? left hleft.2 right hright.2,
        Entries.get?_eq_get?_iff (nodup_keys_meaningPairs hleft.1)
          (nodup_keys_meaningPairs hright.1), length_meaningPairs, length_meaningPairs]
    | _ => simp [same, meaning]
  | .integer _, _, right, _ | .string _, _, right, _ | .boolean _, _, right, _
  | .null, _, right, _ | .function _, _, right, _ | .builtin _, _, right, _
  | .error _, _, right, _ => by
    cases right <;> simp [same, meaning]

theorem sameEach_iff_meaningEach_eq : (left : List Value) → AllIn HasDistinctKeys left →
    (right : List Value) → AllIn HasDistinctKeys right →
      (sameEach left right = true ↔ meaningEach left = meaningEach right)
  | [], _, right, _ => by
    cases right <;> simp [sameEach, meaningEach]
  | value :: left, hleft, right, hright => by
    cases right with
    | nil => simp [sameEach, meaningEach]
    | cons other right =>
      rw [sameEach, meaningEach, meaningEach, List.cons.injEq, Bool.and_eq_true,
        same_iff_meaning_eq value hleft.1 other hright.1,
        sameEach_iff_meaningEach_eq left hleft.2 right hright.2]

theorem sameUnder_iff_forall_get? : (left : List (Key × Value)) →
    AllInPairs HasDistinctKeys left → (right : List (Key × Value)) →
      AllInPairs HasDistinctKeys right →
        (sameUnder right left = true ↔
          ∀ pair ∈ meaningPairs left, Entries.get? (meaningPairs right) pair.1 = some pair.2)
  | [], _, right, _ => by simp [sameUnder, meaningPairs]
  | (key, value) :: left, hleft, right, hright => by
    rw [sameUnder, meaningPairs, List.forall_mem_cons, Bool.and_eq_true,
      sameUnder_iff_forall_get? left hleft.2.2 right hright, get?_meaningPairs]
    refine and_congr_left fun _ ↦ ?_
    cases hfound : Entries.get? right key with
    | none => simp
    | some other =>
      have hother : other.All HasDistinctKeys :=
        (allInPairs_iff.mp hright _ (Entries.mem_of_get? hfound)).2
      rw [Option.map_some, Option.some.injEq, eq_comm (a := other.meaning)]
      exact same_iff_meaning_eq value hleft.2.1 other hother

end

theorem same_self {value : Value} (h : value.All HasDistinctKeys) : value.same value = true :=
  (same_iff_meaning_eq value h value h).mpr rfl

theorem equivalence_same :
    Equivalence fun left right : {value : Value // value.All HasDistinctKeys} ↦
      left.1.same right.1 = true := by
  have hmeaning : (fun left right : {value : Value // value.All HasDistinctKeys} ↦
      left.1.same right.1 = true) = fun left right ↦ left.1.meaning = right.1.meaning := by
    ext left right
    exact same_iff_meaning_eq left.1 left.2 right.1 right.2
  rw [hmeaning]
  exact eq_equivalence.comap (meaning ∘ Subtype.val)

/-! ### Hashes -/

/-- The same keys, with equal values. -/
theorem same_hash_iff {left right : List (Key × Value)} (hleft : (hash left).All HasDistinctKeys)
    (hright : (hash right).All HasDistinctKeys) :
    (hash left).same (hash right) = true ↔
      (∀ key, key ∈ Entries.keys left ↔ key ∈ Entries.keys right) ∧
        ∀ key value other, (key, value) ∈ left → (key, other) ∈ right →
          value.same other = true := by
  rw [same_iff_meaning_eq _ hleft _ hright, meaning, meaning, Meaning.hash.injEq,
    meaningPairs_eq_mapValues, meaningPairs_eq_mapValues,
    Entries.get?_mapValues_eq_iff meaning hleft.1 hright.1]
  refine and_congr_right fun _ ↦ forall₅_congr fun key value other hvalue hother ↦ ?_
  have hvalueKeys : value.All HasDistinctKeys := ((all_hash_iff.mp hleft).2 _ hvalue).2
  have hotherKeys : other.All HasDistinctKeys := ((all_hash_iff.mp hright).2 _ hother).2
  exact (same_iff_meaning_eq value hvalueKeys other hotherKeys).symm

theorem all_hasDistinctKeys_of_perm {pairs others : List (Key × Value)} (hperm : others.Perm pairs)
    (h : (hash pairs).All HasDistinctKeys) : (hash others).All HasDistinctKeys := by
  rw [all_hash_iff] at h ⊢
  have hkeys : (Entries.keys others).Nodup := (hperm.map Prod.fst).nodup_iff.mpr h.1
  exact ⟨hkeys, fun pair hpair ↦ h.2 pair (hperm.mem_iff.mp hpair)⟩

theorem meaning_hash_of_perm {pairs others : List (Key × Value)} (hperm : others.Perm pairs)
    (h : (Entries.keys pairs).Nodup) : (hash others).meaning = (hash pairs).meaning := by
  have hothers : (Entries.keys others).Nodup := (hperm.map Prod.fst).nodup_iff.mpr h
  rw [meaning, meaning, Meaning.hash.injEq, Entries.get?_eq_get?_iff_perm
    (nodup_keys_meaningPairs hothers) (nodup_keys_meaningPairs h),
    meaningPairs_eq_mapValues, meaningPairs_eq_mapValues]
  exact hperm.map _

/-- The order in which the pairs stand does not matter. -/
theorem same_hash_of_perm {left right left' right' : List (Key × Value)}
    (hleft : (hash left).All HasDistinctKeys) (hright : (hash right).All HasDistinctKeys)
    (hpermLeft : left'.Perm left) (hpermRight : right'.Perm right) :
    (hash left').same (hash right') = (hash left).same (hash right) := by
  rw [Bool.eq_iff_iff, same_iff_meaning_eq _ hleft _ hright,
    same_iff_meaning_eq _ (all_hasDistinctKeys_of_perm hpermLeft hleft) _
      (all_hasDistinctKeys_of_perm hpermRight hright),
    meaning_hash_of_perm hpermLeft hleft.1, meaning_hash_of_perm hpermRight hright.1]

/-! ### Keys -/

theorem same_toValue_iff (key other : Key) :
    key.toValue.same other.toValue = true ↔ key = other := by
  cases key <;> cases other <;> simp [Key.toValue, same]

theorem hasDistinctKeys_of_isPlain {value : Value} (hplain : value.isPlain) :
    value.HasDistinctKeys := by
  cases value with
  | hash => cases hplain
  | _ => trivial

/-- A hash that has only one of two keys tells them apart. -/
theorem exists_not_same_index {key other : Key} (h : key ≠ other) :
    ∃ pairs, (hash pairs).All HasDistinctKeys ∧
      ¬(index (hash pairs) key.toValue).same (index (hash pairs) other.toValue) = true := by
  refine ⟨[(key, .boolean true)], all_hash_iff.mpr ⟨List.nodup_singleton key, ?_⟩, ?_⟩
  · rw [List.forall_mem_singleton]
    exact ⟨hasDistinctKeys_of_isPlain (isPlain_toValue key), all_of_isPlain rfl trivial⟩
  · rw [Evaluation.index_toValue, Evaluation.index_toValue]
    simp [Entries.get?, h, same]

theorem tfae_same_index (key other : Key) :
    List.TFAE [key.toValue.same other.toValue = true,
      ∀ pairs, (hash pairs).All HasDistinctKeys →
        index (hash pairs) key.toValue = index (hash pairs) other.toValue,
      ∀ pairs, (hash pairs).All HasDistinctKeys →
        (index (hash pairs) key.toValue).same (index (hash pairs) other.toValue) = true] := by
  tfae_have 1 → 2 := by
    intro hsame pairs _
    rw [(same_toValue_iff key other).mp hsame]
  tfae_have 2 → 3 := by
    intro hindex pairs hpairs
    rw [hindex pairs hpairs]
    exact same_self (all_index (fun _ ↦ hasDistinctKeys_of_isPlain) hpairs _)
  tfae_have 3 → 1 := by
    intro hindex
    rw [same_toValue_iff]
    by_contra hne
    obtain ⟨pairs, hpairs, hapart⟩ := exists_not_same_index hne
    exact hapart (hindex pairs hpairs)
  tfae_finish

end Value

open Value

/-- Values that have distinct keys in every hash are equal exactly if they stand for the same, and
this is an equivalence. Two hashes are equal exactly if they have the same keys, with equal values,
and it does not matter in which order their pairs stand. Two values that can be keys are equal
exactly if every hash gives the same for both of them, and it is enough that it gives equal
values. -/
theorem equality_is_equivalence_ignoring_order :
    (∀ left right : Value, left.All HasDistinctKeys → right.All HasDistinctKeys →
      (left.same right = true ↔ left.meaning = right.meaning)) ∧
    (Equivalence fun left right : {value : Value // value.All HasDistinctKeys} ↦
      left.1.same right.1 = true) ∧
    (∀ left right : List (Key × Value),
      (hash left).All HasDistinctKeys → (hash right).All HasDistinctKeys →
        ((hash left).same (hash right) = true ↔
          (∀ key, key ∈ Entries.keys left ↔ key ∈ Entries.keys right) ∧
            ∀ key value other, (key, value) ∈ left → (key, other) ∈ right →
              value.same other = true) ∧
        ∀ left' right' : List (Key × Value), left'.Perm left → right'.Perm right →
          (hash left').same (hash right') = (hash left).same (hash right)) ∧
    ∀ left right : Value, left.key?.isSome → right.key?.isSome →
      (left.same right = true ↔ ∀ pairs, (hash pairs).All HasDistinctKeys →
        index (hash pairs) left = index (hash pairs) right) ∧
      (left.same right = true ↔ ∀ pairs, (hash pairs).All HasDistinctKeys →
        (index (hash pairs) left).same (index (hash pairs) right) = true) := by
  refine ⟨fun left right hleft ↦ same_iff_meaning_eq left hleft right, equivalence_same,
    fun left right hleft hright ↦ ⟨same_hash_iff hleft hright,
      fun left' right' ↦ same_hash_of_perm hleft hright⟩, fun left right hleft hright ↦ ?_⟩
  obtain ⟨key, hkey⟩ := Option.isSome_iff_exists.mp hleft
  obtain ⟨other, hother⟩ := Option.isSome_iff_exists.mp hright
  rw [key?_eq_some_iff.mp hkey, key?_eq_some_iff.mp hother]
  exact ⟨(tfae_same_index key other).out 0 1, (tfae_same_index key other).out 0 2⟩

/-- With hashes whose pairs stand in other orders, outside and inside, and with two keys that differ
by their type only. -/
theorem equality_is_equivalence_ignoring_order_of_nested_hashes :
    let made : Value := .array [.function ⟨0, [], .mk default [], topFrame⟩, .builtin .len]
    let pairs : List (Key × Value) :=
      [(.integer 1, made), (.boolean true, .hash [(.string "a", .null), (.string "b", made)])]
    let others : List (Key × Value) :=
      [(.boolean true, .hash [(.string "b", made), (.string "a", .null)]), (.integer 1, made)]
    ((hash pairs).All HasDistinctKeys ∧ (hash others).All HasDistinctKeys) ∧
      ((hash pairs).same (hash others) = true ∧ (hash others).same (hash pairs) = true ∧
        (hash pairs).same (hash pairs) = true ∧ (hash pairs).meaning = (hash others).meaning) ∧
      ((∀ key, key ∈ Entries.keys pairs ↔ key ∈ Entries.keys others) ∧
        ∀ key value other, (key, value) ∈ pairs → (key, other) ∈ others →
          value.same other = true) ∧
      (pairs.reverse.Perm pairs ∧ others.reverse.Perm others ∧
        (hash pairs.reverse).same (hash others.reverse) = (hash pairs).same (hash others)) ∧
      ((integer 1).key?.isSome ∧ (boolean true).key?.isSome ∧
        ¬∀ pairs, (hash pairs).All HasDistinctKeys →
          index (hash pairs) (.integer 1) = index (hash pairs) (.boolean true)) := by
  intro made pairs others
  have hpairs : (hash pairs).All HasDistinctKeys := by decide
  have hothers : (hash others).All HasDistinctKeys := by decide
  have hsame : (hash pairs).same (hash others) = true := by decide
  obtain ⟨hmeaning, hequivalence, hhashes, hkeys⟩ := equality_is_equivalence_ignoring_order
  have hback : (hash others).same (hash pairs) = true :=
    hequivalence.symm (x := ⟨_, hpairs⟩) (y := ⟨_, hothers⟩) hsame
  have hself : (hash pairs).same (hash pairs) = true :=
    hequivalence.trans (x := ⟨_, hpairs⟩) (y := ⟨_, hothers⟩) (z := ⟨_, hpairs⟩) hsame hback
  obtain ⟨hiff, hperm⟩ := hhashes pairs others hpairs hothers
  obtain ⟨hindex, -⟩ := hkeys (.integer 1) (.boolean true) rfl rfl
  refine ⟨⟨hpairs, hothers⟩, ⟨hsame, hback, hself, (hmeaning _ _ hpairs hothers).mp hsame⟩,
    hiff.mp hsame, ⟨List.reverse_perm _, List.reverse_perm _,
      hperm _ _ (List.reverse_perm _) (List.reverse_perm _)⟩, rfl, rfl, ?_⟩
  rw [← hindex]
  decide

end MonkeyLang
