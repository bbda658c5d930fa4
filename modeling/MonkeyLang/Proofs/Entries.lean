import Mathlib.Tactic
import MonkeyLang.Entries

/-!
# Entries as a finite map

Pairs that are put in one after the other leave each key once, at the place where it was first
given, and with the value that was given last. So entries that are built in this way are a finite
map whose keys keep the order of their first occurrence.
-/

set_option autoImplicit false

namespace MonkeyLang.Entries

variable {κ α β : Type}

def keys (entries : List (κ × α)) : List κ :=
  entries.map Prod.fst

/-- A change of values that keeps their keys. -/
def mapValues (f : α → β) (entries : List (κ × α)) : List (κ × β) :=
  entries.map (Prod.map id f)

theorem keys_reverse (entries : List (κ × α)) : keys entries.reverse = (keys entries).reverse :=
  List.map_reverse

theorem keys_mapValues (f : α → β) (entries : List (κ × α)) :
    keys (mapValues f entries) = keys entries := by
  rw [keys, mapValues, List.map_map]
  rfl

variable [DecidableEq κ]

/-- Puts the pairs into the entries, one after the other. -/
def putAll (pairs entries : List (κ × α)) : List (κ × α) :=
  pairs.foldl (fun entries pair ↦ put pair.1 pair.2 entries) entries

/-! ### One value that is put in -/

theorem mem_put {key : κ} {value : α} {entries : List (κ × α)} {entry : κ × α}
    (hentry : entry ∈ put key value entries) : entry = (key, value) ∨ entry ∈ entries := by
  induction entries with
  | nil => exact .inl (List.mem_singleton.mp hentry)
  | cons head rest ih =>
    obtain ⟨k, v⟩ := head
    rw [put] at hentry
    split_ifs at hentry with hkey
    · rcases List.mem_cons.mp hentry with rfl | hentry
      · exact .inl (by rw [hkey])
      · exact .inr (.tail _ hentry)
    · rcases List.mem_cons.mp hentry with rfl | hentry
      · exact .inr (.head _)
      · exact (ih hentry).imp_right (.tail _)

theorem mem_of_get? {key : κ} {value : α} {entries : List (κ × α)}
    (hget : get? entries key = some value) : (key, value) ∈ entries := by
  induction entries with
  | nil => cases hget
  | cons head rest ih =>
    obtain ⟨k, v⟩ := head
    rw [get?] at hget
    split_ifs at hget with hkey
    · obtain rfl := Option.some.inj hget
      rw [hkey]
      exact .head _
    · exact .tail _ (ih hget)

theorem get?_append (entries rest : List (κ × α)) (key : κ) :
    get? (entries ++ rest) key = (get? entries key).or (get? rest key) := by
  induction entries with
  | nil => rfl
  | cons head entries ih =>
    obtain ⟨k, v⟩ := head
    rw [List.cons_append, get?, get?]
    split_ifs
    · rfl
    · exact ih

theorem get?_eq_none_iff {entries : List (κ × α)} {key : κ} :
    get? entries key = none ↔ key ∉ keys entries := by
  induction entries with
  | nil => exact iff_of_true rfl List.not_mem_nil
  | cons head rest ih =>
    obtain ⟨k, v⟩ := head
    rw [get?, keys, List.map_cons, List.mem_cons]
    by_cases hkey : k = key
    · rw [if_pos hkey]
      exact iff_of_false (Option.some_ne_none v) fun hnot ↦ hnot (.inl hkey.symm)
    · rw [if_neg hkey, ih]
      exact not_congr (or_iff_right (Ne.symm hkey)).symm

/-- The first one of the entries with the key is found. -/
theorem get?_eq_some_iff {entries : List (κ × α)} {key : κ} {value : α} :
    get? entries key = some value ↔
      ∃ before after, entries = before ++ (key, value) :: after ∧ key ∉ keys before := by
  constructor
  · intro hget
    induction entries with
    | nil => cases hget
    | cons head rest ih =>
      obtain ⟨k, v⟩ := head
      rw [get?] at hget
      by_cases hkey : k = key
      · rw [if_pos hkey] at hget
        obtain rfl := Option.some.inj hget
        exact ⟨[], rest, by rw [hkey, List.nil_append], List.not_mem_nil⟩
      · rw [if_neg hkey] at hget
        obtain ⟨before, after, rfl, hbefore⟩ := ih hget
        refine ⟨(k, v) :: before, after, rfl, ?_⟩
        exact List.not_mem_cons_of_ne_of_not_mem (Ne.symm hkey) hbefore
  · rintro ⟨before, after, rfl, hbefore⟩
    rw [get?_append, get?_eq_none_iff.mpr hbefore, Option.none_or, get?, if_pos rfl]

theorem keys_put (key : κ) (value : α) (entries : List (κ × α)) :
    keys (put key value entries) =
      if key ∈ keys entries then keys entries else keys entries ++ [key] := by
  induction entries with
  | nil => rfl
  | cons head rest ih =>
    obtain ⟨k, v⟩ := head
    rw [put]
    split_ifs with hkey hmem hmem
    · rfl
    · exact absurd (hkey ▸ List.mem_cons_self) hmem
    · have hrest : key ∈ keys rest := (List.mem_cons.mp hmem).resolve_left (Ne.symm hkey)
      rw [if_pos hrest] at ih
      exact congrArg (k :: ·) ih
    · have hrest : key ∉ keys rest := fun h ↦ hmem (.tail _ h)
      rw [if_neg hrest] at ih
      exact congrArg (k :: ·) ih

theorem nodup_keys_put {entries : List (κ × α)} (h : (keys entries).Nodup) (key : κ) (value : α) :
    (keys (put key value entries)).Nodup := by
  rw [keys_put]
  split_ifs with hmem
  · exact h
  · rw [← List.concat_eq_append, List.nodup_concat]
    exact ⟨hmem, h⟩

theorem put_mapValues (f : α → β) (key : κ) (value : α) (entries : List (κ × α)) :
    put key (f value) (mapValues f entries) = mapValues f (put key value entries) := by
  induction entries with
  | nil => rfl
  | cons head rest ih =>
    obtain ⟨k, v⟩ := head
    show put key (f value) ((k, f v) :: mapValues f rest) = _
    rw [put, put]
    split_ifs
    · rfl
    · rw [ih]
      rfl

theorem get?_mapValues (f : α → β) (entries : List (κ × α)) (key : κ) :
    get? (mapValues f entries) key = (get? entries key).map f := by
  induction entries with
  | nil => rfl
  | cons head rest ih =>
    obtain ⟨k, v⟩ := head
    show get? ((k, f v) :: mapValues f rest) key = _
    rw [get?, get?]
    split_ifs
    · rfl
    · exact ih

/-! ### Pairs that are put in one after the other -/

theorem putAll_concat (pairs entries : List (κ × α)) (pair : κ × α) :
    putAll (pairs ++ [pair]) entries = put pair.1 pair.2 (putAll pairs entries) :=
  List.foldl_append

theorem mem_putAll {pairs entries : List (κ × α)} {entry : κ × α}
    (hentry : entry ∈ putAll pairs entries) : entry ∈ pairs ∨ entry ∈ entries := by
  induction pairs generalizing entries with
  | nil => exact .inr hentry
  | cons pair rest ih =>
    rcases ih hentry with hrest | hput
    · exact .inl (.tail _ hrest)
    · rcases mem_put hput with rfl | hmem
      · exact .inl (.head _)
      · exact .inr hmem

theorem putAll_mapValues (f : α → β) (pairs entries : List (κ × α)) :
    putAll (mapValues f pairs) (mapValues f entries) = mapValues f (putAll pairs entries) := by
  induction pairs generalizing entries with
  | nil => rfl
  | cons pair rest ih =>
    show putAll (mapValues f rest) (put pair.1 (f pair.2) (mapValues f entries)) = _
    rw [put_mapValues, ih]
    rfl

/-- Each key stands where it was first given. -/
theorem keys_putAll_nil (pairs : List (κ × α)) :
    keys (putAll pairs []) = (keys pairs).eraseDups := by
  induction pairs using List.reverseRecOn with
  | nil => rfl
  | append_singleton pairs pair ih =>
    have hkeys : keys (pairs ++ [pair]) = keys pairs ++ [pair.1] := List.map_append
    rw [putAll_concat, keys_put, ih, hkeys, List.eraseDups_append]
    by_cases hmem : pair.1 ∈ keys pairs
    · simp [List.removeAll, hmem]
    · simp [List.removeAll, hmem, List.eraseDups_cons]

theorem nodup_keys_putAll {entries : List (κ × α)} (h : (keys entries).Nodup)
    (pairs : List (κ × α)) : (keys (putAll pairs entries)).Nodup := by
  induction pairs generalizing entries with
  | nil => exact h
  | cons pair rest ih => exact ih (nodup_keys_put h pair.1 pair.2)

/-- The value that was given last is found. -/
theorem get?_putAll_nil (pairs : List (κ × α)) (key : κ) :
    get? (putAll pairs []) key = get? pairs.reverse key := by
  induction pairs using List.reverseRecOn with
  | nil => rfl
  | append_singleton pairs pair ih =>
    obtain ⟨k, v⟩ := pair
    rw [putAll_concat, get?_put, ih, List.reverse_append]
    rfl

/-- The last one of the entries with the key is the first one from behind. -/
theorem get?_reverse_eq_some_iff {entries : List (κ × α)} {key : κ} {value : α} :
    get? entries.reverse key = some value ↔
      ∃ before after, entries = before ++ (key, value) :: after ∧ key ∉ keys after := by
  rw [get?_eq_some_iff]
  constructor
  · rintro ⟨after, before, heq, hafter⟩
    refine ⟨before.reverse, after.reverse, ?_, by rwa [keys_reverse, List.mem_reverse]⟩
    rw [← List.reverse_reverse entries, heq]
    simp
  · rintro ⟨before, after, rfl, hafter⟩
    exact ⟨after.reverse, before.reverse, by simp, by rwa [keys_reverse, List.mem_reverse]⟩

theorem get?_reverse_eq_none_iff {entries : List (κ × α)} {key : κ} :
    get? entries.reverse key = none ↔ key ∉ keys entries := by
  rw [get?_eq_none_iff, keys_reverse, List.mem_reverse]

theorem get?_putAll_of_last {key : κ} {value : α} (before : List (κ × α)) {after : List (κ × α)}
    (h : key ∉ keys after) :
    get? (putAll (before ++ (key, value) :: after) []) key = some value := by
  rw [get?_putAll_nil]
  exact get?_reverse_eq_some_iff.mpr ⟨before, after, rfl, h⟩

theorem get?_putAll_of_not_mem {key : κ} {pairs : List (κ × α)} (h : key ∉ keys pairs) :
    get? (putAll pairs []) key = none := by
  rw [get?_putAll_nil]
  exact get?_reverse_eq_none_iff.mpr h

/-! ### Entries with distinct keys -/

theorem get?_eq_some_iff_mem {entries : List (κ × α)} (h : (keys entries).Nodup) {key : κ}
    {value : α} : get? entries key = some value ↔ (key, value) ∈ entries := by
  refine ⟨mem_of_get?, fun hmem ↦ ?_⟩
  obtain ⟨before, after, rfl⟩ := List.append_of_mem hmem
  have hkeys : keys (before ++ (key, value) :: after) = keys before ++ key :: keys after :=
    List.map_append
  rw [hkeys] at h
  have hbefore : key ∉ keys before := fun hkey ↦
    List.disjoint_of_nodup_append h hkey List.mem_cons_self
  exact get?_eq_some_iff.mpr ⟨before, after, rfl, hbefore⟩

/-- Look-ups see everything but the order. -/
theorem get?_eq_get?_iff_perm {entries others : List (κ × α)} (h : (keys entries).Nodup)
    (hothers : (keys others).Nodup) : get? entries = get? others ↔ entries.Perm others := by
  rw [List.perm_ext_iff_of_nodup (.of_map _ h) (.of_map _ hothers)]
  constructor
  · rintro heq ⟨key, value⟩
    rw [← get?_eq_some_iff_mem h, heq, get?_eq_some_iff_mem hothers]
  · intro hmem
    ext key value
    rw [get?_eq_some_iff_mem h, get?_eq_some_iff_mem hothers, hmem]

/-- If there are as many entries on both sides, it is enough to look up those of one side. -/
theorem get?_eq_get?_iff {entries others : List (κ × α)} (h : (keys entries).Nodup)
    (hothers : (keys others).Nodup) :
    get? entries = get? others ↔
      entries.length = others.length ∧ ∀ entry ∈ entries, get? others entry.1 = some entry.2 := by
  rw [get?_eq_get?_iff_perm h hothers]
  constructor
  · intro hperm
    exact ⟨hperm.length_eq, fun entry hentry ↦
      (get?_eq_some_iff_mem hothers).mpr (hperm.mem_iff.mp hentry)⟩
  · rintro ⟨hlength, hfound⟩
    have hsubset : entries ⊆ others := fun entry hentry ↦ mem_of_get? (hfound entry hentry)
    -- The entries are distinct, so there are not enough of the others to leave one of them out.
    have hsubperm : entries.Subperm others := List.subperm_of_subset (.of_map _ h) hsubset
    exact hsubperm.perm_of_length_le hlength.ge

/-- Look-ups agree on the changed values exactly if both sides have the same keys, with values that
the change makes equal. -/
theorem get?_mapValues_eq_iff (f : α → β) {entries others : List (κ × α)}
    (h : (keys entries).Nodup) (hothers : (keys others).Nodup) :
    get? (mapValues f entries) = get? (mapValues f others) ↔
      (∀ key, key ∈ keys entries ↔ key ∈ keys others) ∧
        ∀ key value other, (key, value) ∈ entries → (key, other) ∈ others → f value = f other := by
  constructor
  · intro heq
    refine ⟨fun key ↦ ?_, fun key value other hvalue hother ↦ ?_⟩
    · rw [← keys_mapValues f entries, ← keys_mapValues f others, ← not_iff_not,
        ← get?_eq_none_iff, ← get?_eq_none_iff, heq]
    · have hkey := congrFun heq key
      rw [get?_mapValues, get?_mapValues, (get?_eq_some_iff_mem h).mpr hvalue,
        (get?_eq_some_iff_mem hothers).mpr hother] at hkey
      exact Option.some.inj hkey
  · rintro ⟨hkeys, hvalues⟩
    ext1 key
    rw [get?_mapValues, get?_mapValues]
    cases hvalue : get? entries key with
    | none =>
      have hmissing : key ∉ keys others := (hkeys key).not.mp (get?_eq_none_iff.mp hvalue)
      rw [get?_eq_none_iff.mpr hmissing]
    | some value =>
      have hmem : (key, value) ∈ entries := mem_of_get? hvalue
      have hkey : key ∈ keys others := (hkeys key).mp (List.mem_map_of_mem hmem)
      obtain ⟨⟨_, other⟩, hother, rfl⟩ := List.mem_map.mp hkey
      rw [(get?_eq_some_iff_mem hothers).mpr hother]
      exact congrArg some (hvalues _ value other hmem hother)

end MonkeyLang.Entries
