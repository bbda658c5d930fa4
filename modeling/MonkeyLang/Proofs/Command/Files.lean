import Mathlib.Tactic
import MonkeyLang.Command
import MonkeyLang.Proofs.Json.Scalars

/-!
# Files that are written and read

A path that could be walked can still be walked, to the same location, after a file has been written
at a location that was reached by a walk itself: such a location has only directories above it, so
that the file makes no new ones. What was written is read again, and the other files keep their
content.
-/

set_option autoImplicit false

namespace MonkeyLang

theorem bind_eq_ok_iff {ε α β : Type} {first : Except ε α} {next : α → Except ε β} {result : β} :
    (first >>= next) = .ok result ↔ ∃ value, first = .ok value ∧ next value = .ok result := by
  cases first with
  | error error => exact ⟨nofun, nofun⟩
  | ok value => simp

theorem Entries.any_put {α β : Type} [DecidableEq α] (test : α → Bool) (key : α) (value : β)
    (entries : List (α × β)) :
    ((Entries.put key value entries).any fun entry ↦ test entry.1) =
      ((entries.any fun entry ↦ test entry.1) || test key) := by
  induction entries with
  | nil => simp [Entries.put]
  | cons entry entries ih =>
    obtain ⟨k, v⟩ := entry
    by_cases hk : k = key
    · subst hk
      simp [Entries.put, Bool.or_right_comm]
    · simp [Entries.put, hk, ih, Bool.or_assoc]

namespace Command

namespace FileTree

variable {tree : FileTree} {location found : Location} {content : String}

/-! ### Locations that a walk reaches -/

/-- Everything above the location is a directory. -/
def Placed (tree : FileTree) (location : Location) : Prop :=
  ∀ above, above <+: location → above ≠ location → tree.isDirectory above

theorem placed_startOf (tree : FileTree) (path : List Char) : tree.Placed (startOf path) := by
  intro above habove hne
  unfold startOf at habove hne
  split_ifs at habove hne
  · rcases List.prefix_cons_iff.mp habove with rfl | ⟨rest, rfl, hrest⟩
    · simp [isDirectory]
    · rw [List.prefix_nil.mp hrest] at hne
      exact absurd rfl hne
  · exact absurd (List.prefix_nil.mp habove) hne

theorem Placed.append (h : tree.Placed location) (hdirectory : tree.isDirectory location)
    (name : String) : tree.Placed (location ++ [name]) := by
  intro above habove hne
  rcases List.prefix_concat_iff.mp habove with rfl | habove
  · exact absurd rfl hne
  · by_cases heq : above = location
    · rwa [heq]
    · exact h above habove heq

theorem Placed.dropLast (h : tree.Placed location) : tree.Placed location.dropLast := by
  intro above habove hne
  refine h above (habove.trans (List.dropLast_prefix _)) ?_
  rintro rfl
  have hlength := habove.length_le
  rw [List.length_dropLast] at hlength
  obtain rfl := List.length_eq_zero_iff.mp (show above.length = 0 by omega)
  exact hne rfl

theorem Placed.next (h : tree.Placed location) (hdirectory : tree.isDirectory location)
    (name : String) : tree.Placed (next location name) := by
  unfold FileTree.next parent
  split_ifs
  · exact h
  · exact h
  · exact h.append hdirectory _
  · exact h.dropLast
  · exact h.append hdirectory _

theorem step_eq_ok_iff {name : String} :
    tree.step location name = .ok found ↔
      tree.isDirectory location ∧ name.utf8ByteSize ≤ maxNameBytes ∧
        found = next location name := by
  unfold step
  by_cases hdirectory : tree.isDirectory location
  · by_cases hlong : maxNameBytes < name.utf8ByteSize
    · simp [hdirectory, hlong]
    · simp [hdirectory, hlong, not_lt.mp hlong, eq_comm]
  · rw [if_neg hdirectory]
    split_ifs <;> simp [hdirectory]

theorem Placed.walk {names : List String} (h : tree.Placed location)
    (hwalk : tree.walk location names = .ok found) : tree.Placed found := by
  induction names generalizing location with
  | nil =>
    obtain rfl := Except.ok.inj hwalk
    exact h
  | cons name names ih =>
    rw [FileTree.walk, bind_eq_ok_iff] at hwalk
    obtain ⟨middle, hstep, hrest⟩ := hwalk
    obtain ⟨hdirectory, -, rfl⟩ := step_eq_ok_iff.mp hstep
    exact ih (h.next hdirectory name) hrest

theorem locate_eq_ok_iff {path : List Char} :
    tree.locate path = .ok found ↔
      '\x00' ∉ path ∧ path ≠ [] ∧ (String.ofList path).utf8ByteSize ≤ maxPathBytes ∧
        tree.walk (startOf path) (pathNames path) = .ok found := by
  unfold locate
  split_ifs <;> simp_all

theorem target_eq_ok_iff {path : String} :
    tree.target path = .ok found ↔
      dropFinalSlashes path.toList = path.toList ∧ tree.locate path.toList = .ok found ∧
        ¬ tree.isDirectory found := by
  unfold target
  by_cases hslash : dropFinalSlashes path.toList = path.toList
  · simp only [hslash, ne_eq, not_true_eq_false, false_or]
    rw [if_neg (fun h ↦ h.2 h.1), bind_eq_ok_iff]
    constructor
    · rintro ⟨middle, hlocate, hfound⟩
      split_ifs at hfound with hdirectory
      obtain rfl := Except.ok.inj hfound
      exact ⟨trivial, hlocate, hdirectory⟩
    · rintro ⟨-, hlocate, hdirectory⟩
      exact ⟨found, hlocate, if_neg hdirectory⟩
  · simp only [hslash, ne_eq, not_false_eq_true, true_or, if_true, false_and, iff_false]
    split_ifs
    · nofun
    · rw [bind_eq_ok_iff]
      rintro ⟨middle, -, hfound⟩
      cases hfound

/-! ### What a written file changes -/

theorem content?_write (tree : FileTree) (location other : Location) (content : String) :
    (tree.write location content).content? other =
      if location = other then some content else tree.content? other :=
  Entries.get?_put tree.files location other content

theorem isDirectory_write (h : tree.Placed location) (other : Location) :
    (tree.write location content).isDirectory other = tree.isDirectory other := by
  have hwritten : (tree.write location content).isDirectory other =
      (tree.isDirectory other ||
        (other.isPrefixOf location && decide (other.length < location.length))) := by
    rw [isDirectory, write, Entries.any_put fun name ↦
      other.isPrefixOf name && decide (other.length < name.length), ← Bool.or_assoc, isDirectory]
  rw [hwritten, Bool.or_eq_left_iff_imp, Bool.and_eq_true, List.isPrefixOf_iff_prefix,
    decide_eq_true_eq]
  rintro ⟨habove, hlength⟩
  exact h other habove fun heq ↦ absurd hlength (heq ▸ lt_irrefl _)

theorem walk_write (h : tree.Placed location) {start : Location} {names : List String}
    (hwalk : tree.walk start names = .ok found) :
    (tree.write location content).walk start names = .ok found := by
  induction names generalizing start with
  | nil => exact hwalk
  | cons name names ih =>
    rw [walk, bind_eq_ok_iff] at hwalk ⊢
    obtain ⟨middle, hstep, hrest⟩ := hwalk
    refine ⟨middle, ?_, ih hrest⟩
    rwa [step_eq_ok_iff, isDirectory_write h, ← step_eq_ok_iff]

theorem locate_write (h : tree.Placed location) {path : List Char}
    (hlocate : tree.locate path = .ok found) :
    (tree.write location content).locate path = .ok found := by
  rw [locate_eq_ok_iff] at hlocate ⊢
  obtain ⟨hnul, hne, hlength, hwalk⟩ := hlocate
  exact ⟨hnul, hne, hlength, walk_write h hwalk⟩

theorem target_write (h : tree.Placed location) {path : String}
    (htarget : tree.target path = .ok found) :
    (tree.write location content).target path = .ok found := by
  rw [target_eq_ok_iff] at htarget ⊢
  obtain ⟨hslash, hlocate, hdirectory⟩ := htarget
  exact ⟨hslash, locate_write h hlocate, by rwa [isDirectory_write h]⟩

theorem placed_of_locate {path : List Char} (h : tree.locate path = .ok location) :
    tree.Placed location :=
  (placed_startOf tree path).walk (locate_eq_ok_iff.mp h).2.2.2

theorem placed_of_target {path : String} (h : tree.target path = .ok location) :
    tree.Placed location :=
  placed_of_locate (target_eq_ok_iff.mp h).2.1

theorem read_eq_some_iff {path text : String} :
    tree.read path = .ok (some text) ↔
      ∃ location, tree.locate path.toList = .ok location ∧ ¬ tree.isDirectory location ∧
        tree.content? location = some text := by
  unfold read
  cases tree.locate path.toList with
  | error error => cases error <;> simp
  | ok location =>
    by_cases hdirectory : tree.isDirectory location
    · simp [hdirectory]
    · simp [hdirectory]

/-- The other files keep their text. -/
theorem read_write_of_ne (h : tree.Placed location) {path text : String}
    (hread : tree.read path = .ok (some text)) (hne : tree.locate path.toList ≠ .ok location) :
    (tree.write location content).read path = .ok (some text) := by
  rw [read_eq_some_iff] at hread ⊢
  obtain ⟨other, hlocate, hdirectory, hcontent⟩ := hread
  have hother : location ≠ other := by
    rintro rfl
    exact hne hlocate
  refine ⟨other, locate_write h hlocate, by rwa [isDirectory_write h], ?_⟩
  rw [content?_write, if_neg hother, hcontent]

/-- What was written is read again. -/
theorem read_write_self {path : String} (htarget : tree.target path = .ok location) :
    (tree.write location content).read path = .ok (some content) := by
  have hplaced := placed_of_target htarget
  obtain ⟨-, hlocate, hdirectory⟩ := target_eq_ok_iff.mp htarget
  rw [read_eq_some_iff]
  refine ⟨location, locate_write hplaced hlocate, by rwa [isDirectory_write hplaced], ?_⟩
  rw [content?_write, if_pos rfl]

end FileTree

/-! ### Plain paths -/

/-- Whether the last name of a path is one of a file: it is there, and it is not a dot. -/
def EndsInName (path : String) : Prop :=
  ∀ name ∈ (FileTree.pathNames path.toList).getLast?, name ≠ "" ∧ name ≠ "."

instance (path : String) : Decidable (EndsInName path) :=
  inferInstanceAs (Decidable (∀ name ∈ (FileTree.pathNames path.toList).getLast?, _))

/-- Characters other than the separator lengthen the last piece. -/
theorem splitOnP_append {α : Type} {test : α → Bool} {front : List (List α)}
    {text last more : List α} (hmore : ∀ c ∈ more, test c = false)
    (hsplit : text.splitOnP test = front ++ [last]) :
    (text ++ more).splitOnP test = front ++ [last ++ more] := by
  induction text generalizing front last with
  | nil =>
    obtain ⟨rfl, rfl⟩ : front = [] ∧ last = [] := by
      simpa [List.append_eq_singleton_iff, eq_comm] using hsplit
    simpa using List.splitOnP_eq_singleton hmore
  | cons c text ih =>
    obtain ⟨before, piece, hpieces⟩ : ∃ before piece, text.splitOnP test = before ++ [piece] :=
      (List.eq_nil_or_concat' _).resolve_left (List.splitOnP_ne_nil test text)
    have hlonger := ih hpieces
    rw [List.splitOnP_cons_eq_if_modifyHead, hpieces] at hsplit
    rw [List.cons_append, List.splitOnP_cons_eq_if_modifyHead, hlonger]
    split_ifs at hsplit ⊢
    · obtain ⟨rfl, hlast⟩ :=
        List.append_inj' (show ([] :: before) ++ [piece] = front ++ [last] from hsplit) rfl
      rw [← List.singleton_inj.mp hlast, List.cons_append]
    · cases before with
      | nil =>
        obtain ⟨rfl, hlast⟩ :=
          List.append_inj' (show [] ++ [c :: piece] = front ++ [last] from hsplit) rfl
        rw [← List.singleton_inj.mp hlast]
        rfl
      | cons first before =>
        obtain ⟨rfl, hlast⟩ := List.append_inj'
          (show ((c :: first) :: before) ++ [piece] = front ++ [last] from hsplit) rfl
        rw [← List.singleton_inj.mp hlast]
        rfl

theorem pathRoot_append (text more : List Char) :
    pathRoot (text ++ '.' :: more) = pathRoot text := by
  -- The root is known from the first three characters.
  rcases text with _ | ⟨a, _ | ⟨b, _ | ⟨c, text⟩⟩⟩
  · rfl
  · by_cases ha : a = '/' <;> simp [pathRoot, ha]
  · by_cases ha : a = '/' <;> by_cases hb : b = '/' <;> simp [pathRoot, ha, hb]
  · by_cases ha : a = '/' <;> by_cases hb : b = '/' <;> by_cases hc : c = '/' <;>
      simp [pathRoot, ha, hb, hc]

theorem intercalate_append_singleton (separator : String) (front : List String)
    (last more : String) :
    separator.intercalate (front ++ [last ++ more]) =
      separator.intercalate (front ++ [last]) ++ more := by
  by_cases hfront : front = []
  · subst hfront
    simp only [List.nil_append, String.intercalate_singleton]
  · simp only [String.intercalate_append_of_ne_nil hfront (List.cons_ne_nil _ _),
      String.intercalate_singleton, String.append_assoc]

/-- A suffix goes to the last name. -/
theorem plainPath_append {path suffix : String} (h : EndsInName path) {more : List Char}
    (hsuffix : suffix.toList = '.' :: more) (hslash : '/' ∉ suffix.toList) :
    plainPath (path ++ suffix) = plainPath path ++ suffix := by
  obtain ⟨front, last, hsplit⟩ : ∃ front last, path.toList.splitOnP (· = '/') = front ++ [last] :=
    (List.eq_nil_or_concat' _).resolve_left (List.splitOnP_ne_nil _ _)
  have hlast : last ≠ [] ∧ last ≠ ['.'] := by
    have hname := h (.ofList last) (by simp [FileTree.pathNames, hsplit])
    constructor
    · rintro rfl
      exact hname.1 rfl
    · rintro rfl
      exact hname.2 rfl
  have hpiece : ∀ c ∈ suffix.toList, decide (c = '/') = false := by
    intro c hc
    refine decide_eq_false ?_
    rintro rfl
    exact hslash hc
  have hlonger := splitOnP_append hpiece hsplit
  have hkept : last ++ suffix.toList ≠ [] ∧ last ++ suffix.toList ≠ ['.'] := by
    simp [hsuffix, hlast.1, List.append_eq_singleton_iff]
  have hsegments : pathSegments path =
      (front.filter fun segment ↦ !(segment = [] ∨ segment = ['.'])).map String.ofList ++
        [.ofList last] := by
    simp [pathSegments, hsplit, hlast]
  have hsegments' : pathSegments (path ++ suffix) =
      (front.filter fun segment ↦ !(segment = [] ∨ segment = ['.'])).map String.ofList ++
        [.ofList last ++ suffix] := by
    simp [pathSegments, hlonger, hkept]
  have hroot : pathRoot (path ++ suffix).toList = pathRoot path.toList := by
    rw [String.toList_append, hsuffix, pathRoot_append]
  have htext : pathRoot path.toList ++ "/".intercalate (pathSegments path) ≠ "" := by
    rw [hsegments, ← String.empty_append (s := .ofList last), intercalate_append_singleton]
    simp [hlast.1]
  simp only [plainPath, hroot]
  rw [if_neg htext, hsegments', intercalate_append_singleton, ← hsegments, ← String.append_assoc,
    if_neg (by simp [htext])]

end Command

end MonkeyLang
