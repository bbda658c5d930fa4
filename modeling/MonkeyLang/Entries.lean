/-!
Entries in order: lists of keys with their values, as they stand in objects, hashes and frames of
variables. A value that is put under a key it had before takes the place of the old one; a new key
comes last.
-/

set_option autoImplicit false

namespace MonkeyLang.Entries

variable {α β : Type} [DecidableEq α]

def get? : List (α × β) → α → Option β
  | [], _ => none
  | (k, v) :: rest, key => if k = key then some v else get? rest key

def put (key : α) (value : β) : List (α × β) → List (α × β)
  | [] => [(key, value)]
  | (k, v) :: rest => if k = key then (k, value) :: rest else (k, v) :: put key value rest

theorem get?_put (entries : List (α × β)) (key other : α) (value : β) :
    get? (put key value entries) other = if key = other then some value else get? entries other := by
  induction entries with
  | nil => rfl
  | cons head rest ih =>
    obtain ⟨k, v⟩ := head
    by_cases hk : k = key
    · subst hk
      simp only [put, get?, if_true]
      split <;> rfl
    · simp only [put, get?, if_neg hk, ih]
      by_cases ho : k = other
      · subst ho
        rw [if_pos rfl, if_pos rfl, if_neg (Ne.symm hk)]
      · rw [if_neg ho, if_neg ho]

theorem sizeOf_get? [SizeOf α] [SizeOf β] {entries : List (α × β)} {key : α} {value : β}
    (h : get? entries key = some value) : sizeOf value < sizeOf entries := by
  induction entries with
  | nil => simp [get?] at h
  | cons head rest ih =>
    obtain ⟨k, v⟩ := head
    rw [get?] at h
    split at h
    · obtain rfl := Option.some.inj h
      simp
      omega
    · have := ih h
      simp
      omega

end MonkeyLang.Entries
