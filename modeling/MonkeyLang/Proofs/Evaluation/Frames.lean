import Mathlib.Tactic
import MonkeyLang.Proofs.Evaluation.Invariant

/-!
# What an evaluation may write

An evaluation in a frame leaves every other frame that was there as it was, leaves every frame its
outer frame, and binds in its own frame only names of `let` statements of the evaluated code. The
bodies of functions do not count as evaluated code here, because a call runs its body in a frame of
its own, which is opened for it.

`Scopes.WritesOnly` says this of the frames below a number, so that the frames opened on the way are
free. It is an invariant of the evaluation for every such number: the frame of a call is opened
above it, and writes to a frame above it do not matter.
-/

set_option autoImplicit false

namespace MonkeyLang

/-! ### The names bound by a tree -/

mutual

/-- The names of the `let` statements outside every function literal. -/
def Expr.letNames : Expr → List String
  | .identifier _ | .integer _ _ | .boolean _ _ | .string _ _ | .function _ _ _ => []
  | .unary _ _ right => right.letNames
  | .binary _ left _ right => left.letNames ++ right.letNames
  | .conditional _ condition consequence none => condition.letNames ++ consequence.letNames
  | .conditional _ condition consequence (some alternative) =>
    condition.letNames ++ (consequence.letNames ++ alternative.letNames)
  | .call _ callee arguments => callee.letNames ++ Expr.letNamesIn arguments
  | .array _ elements => Expr.letNamesIn elements
  | .index _ left place => left.letNames ++ place.letNames
  | .hash _ pairs => Expr.letNamesInPairs pairs

def Expr.letNamesIn : List Expr → List String
  | [] => []
  | expression :: rest => expression.letNames ++ Expr.letNamesIn rest

def Expr.letNamesInPairs : List (Expr × Expr) → List String
  | [] => []
  | (key, value) :: rest => key.letNames ++ (value.letNames ++ Expr.letNamesInPairs rest)

def Stmt.letNames : Stmt → List String
  | .binding _ name value => name.value :: value.letNames
  | .returning _ value => value.letNames
  | .expression _ tree => tree.letNames
  | .block body => body.letNames

def Stmt.letNamesIn : List Stmt → List String
  | [] => []
  | statement :: rest => statement.letNames ++ Stmt.letNamesIn rest

def Block.letNames : Block → List String
  | .mk _ statements => Stmt.letNamesIn statements

end

theorem Expr.letNames_subset_of_mem {expression : Expr} {expressions : List Expr}
    (hmem : expression ∈ expressions) : expression.letNames ⊆ Expr.letNamesIn expressions := by
  induction expressions with
  | nil => cases hmem
  | cons first rest ih =>
    rw [Expr.letNamesIn]
    rcases List.mem_cons.mp hmem with rfl | hmem
    · exact List.subset_append_left _ _
    · exact List.subset_append_of_subset_right _ (ih hmem)

theorem Expr.letNames_subset_of_mem_pairs {pair : Expr × Expr} {pairs : List (Expr × Expr)}
    (hmem : pair ∈ pairs) :
    pair.1.letNames ⊆ Expr.letNamesInPairs pairs ∧
      pair.2.letNames ⊆ Expr.letNamesInPairs pairs := by
  induction pairs with
  | nil => cases hmem
  | cons first rest ih =>
    rw [Expr.letNamesInPairs]
    rcases List.mem_cons.mp hmem with rfl | hmem
    · exact ⟨List.subset_append_left _ _,
        List.subset_append_of_subset_right _ (List.subset_append_left _ _)⟩
    · obtain ⟨hkey, hvalue⟩ := ih hmem
      exact ⟨List.subset_append_of_subset_right _ (List.subset_append_of_subset_right _ hkey),
        List.subset_append_of_subset_right _ (List.subset_append_of_subset_right _ hvalue)⟩

theorem Stmt.letNames_subset_of_mem {statement : Stmt} {statements : List Stmt}
    (hmem : statement ∈ statements) : statement.letNames ⊆ Stmt.letNamesIn statements := by
  induction statements with
  | nil => cases hmem
  | cons first rest ih =>
    rw [Stmt.letNamesIn]
    rcases List.mem_cons.mp hmem with rfl | hmem
    · exact List.subset_append_left _ _
    · exact List.subset_append_of_subset_right _ (ih hmem)

/-! ### Writes to one frame -/

namespace Scopes

/-- Of the first `old` frames, only the given one may differ from what it was before, and in it
only the bindings of the given names. -/
structure WritesOnly (old : Nat) (frame : FrameId) (names : List String)
    (before after : Scopes) : Prop where
  size : old ≤ after.frames.size
  others : ∀ other < old, other ≠ frame → after.frames[other]? = before.frames[other]?
  outer : ∀ other < old,
    (after.frames[other]?).map (·.outer) = (before.frames[other]?).map (·.outer)
  own : frame < old → ∀ name ∉ names,
    (after.frames[frame]?).bind (·.get? name) = (before.frames[frame]?).bind (·.get? name)

variable {old : Nat} {frame : FrameId} {names : List String} {before middle after : Scopes}

theorem WritesOnly.refl (hsize : old ≤ before.frames.size) :
    WritesOnly old frame names before before where
  size := hsize
  others _ _ _ := rfl
  outer _ _ := rfl
  own _ _ _ := rfl

/-- A write to a frame above the old ones does not matter. -/
theorem WritesOnly.trans_above {inner : FrameId} {others : List String}
    (h : WritesOnly old frame names before middle) (hinner : old ≤ inner)
    (h' : WritesOnly old inner others middle after) :
    WritesOnly old frame names before after where
  size := h'.size
  others other hother hne := by
    rw [h'.others other hother (Nat.ne_of_lt (hother.trans_le hinner)), h.others other hother hne]
  outer other hother := by
    rw [h'.outer other hother, h.outer other hother]
  own hframe name hname := by
    rw [h'.others frame hframe (Nat.ne_of_lt (hframe.trans_le hinner)), h.own hframe name hname]

theorem WritesOnly.newFrame (h : WritesOnly old frame names before middle)
    (enclosing : Option FrameId) :
    WritesOnly old frame names before (middle.newFrame enclosing).2 := by
  have hkept (other : FrameId) (hother : other < old) :
      (middle.newFrame enclosing).2.frames[other]? = middle.frames[other]? :=
    getElem?_newFrame enclosing (hother.trans_le h.size)
  refine ⟨?_, fun other hother hne ↦ ?_, fun other hother ↦ ?_, fun hframe name hname ↦ ?_⟩
  · rw [Scopes.newFrame, Array.size_push]
    exact Nat.le_succ_of_le h.size
  · rw [hkept other hother, h.others other hother hne]
  · rw [hkept other hother, h.outer other hother]
  · rw [hkept frame hframe, h.own hframe name hname]

/-- A binding of one of the names in the frame, or of any name in a frame above the old ones. -/
theorem WritesOnly.set (h : WritesOnly old frame names before middle) {target : FrameId}
    {name : String} {value : Value} (htarget : target < old → target = frame ∧ name ∈ names) :
    WritesOnly old frame names before (middle.set target name value) := by
  refine ⟨?_, fun other hother hne ↦ ?_, fun other hother ↦ ?_, fun hframe wanted hwanted ↦ ?_⟩
  · rw [Scopes.set, Array.size_modify]
    exact h.size
  · have hne' : target ≠ other := fun heq ↦ hne (heq ▸ (htarget (heq ▸ hother)).1)
    rw [getElem?_set, if_neg hne', h.others other hother hne]
  · rw [getElem?_set, ← h.outer other hother]
    split_ifs
    · rw [Option.map_map]
      rfl
    · rfl
  · rw [getElem?_set, ← h.own hframe wanted hwanted]
    split_ifs with heq
    · subst heq
      have hne : name ≠ wanted := fun hsame ↦ hwanted (hsame ▸ (htarget hframe).2)
      cases middle.frames[target]? with
      | none => rfl
      | some here =>
        show (here.set name value).get? wanted = here.get? wanted
        rw [Frame.get?_set, if_neg hne]
    · rfl

end Scopes

/-! ### The evaluator -/

/-- The computation writes to one frame only, and there only the given names. -/
def Run.WritesOnly {α : Type} (frame : FrameId) (names : List String) (run : Run α) : Prop :=
  ∀ old before, run.Ensures (Scopes.WritesOnly old frame names before) fun _ ↦ True

namespace Evaluation

open Run

/-- What is written by the evaluating functions when `depth` nested steps are allowed. -/
structure WritesOnlyAt (settings : Settings) (depth : Nat) : Prop where
  evaluate : ∀ {frame : FrameId} {names : List String}
      {expression : Expr}, expression.letNames ⊆ names →
    (evaluate settings depth expression frame).WritesOnly frame names
  evaluateEach : ∀ {frame : FrameId} {names : List String}
      {expressions : List Expr}, Expr.letNamesIn expressions ⊆ names →
    (evaluateEach settings depth expressions frame).WritesOnly frame names
  hashLiteral : ∀ {frame : FrameId} {names : List String}
      {pairs : List (Expr × Expr)}, Expr.letNamesInPairs pairs ⊆ names →
    (hashLiteral settings depth pairs frame).WritesOnly frame names
  conditional : ∀ {frame : FrameId} {names : List String}
      {condition : Expr} {consequence : Block} {alternative : Option Block},
    condition.letNames ⊆ names → consequence.letNames ⊆ names →
      (∀ block ∈ alternative, block.letNames ⊆ names) →
        (conditional settings depth condition consequence alternative frame).WritesOnly frame names
  call : ∀ {frame : FrameId} {names : List String} {callee : Expr}
      {arguments : List Expr}, callee.letNames ⊆ names → Expr.letNamesIn arguments ⊆ names →
    (call settings depth callee arguments frame).WritesOnly frame names
  execute : ∀ {frame : FrameId} {names : List String}
      {statement : Stmt}, statement.letNames ⊆ names →
    (execute settings depth statement frame).WritesOnly frame names
  executeEach : ∀ {frame : FrameId} {names : List String}
      {statements : List Stmt}, Stmt.letNamesIn statements ⊆ names →
    (executeEach settings depth statements frame).WritesOnly frame names

variable {settings : Settings} {depth : Nat}

/-- With no nested step allowed every evaluation is halted at once. -/
theorem writesOnlyAt_zero : WritesOnlyAt settings 0 := by
  constructor
  all_goals
    intros
    intro old before
    simp only [evaluate, evaluateEach, hashLiteral, conditional, call, execute, executeEach]
    exact ensures_halt _

namespace WritesOnlyAt

variable {frame : FrameId} {names : List String}

/-- A computation that writes only to a frame above the old ones, as the body of a call does. -/
theorem ensures_above {α : Type} {run : Run α} {inner : FrameId} {others : List String}
    (hrun : run.WritesOnly inner others) {old : Nat} (hinner : old ≤ inner) (before : Scopes) :
    run.Ensures (Scopes.WritesOnly old frame names before) fun _ ↦ True := by
  intro machine hmachine
  have hsatisfies := hrun old machine.scopes machine (.refl hmachine.size)
  cases houtcome : run machine with
  | done value after =>
    rw [houtcome] at hsatisfies
    exact ⟨hmachine.trans_above hinner hsatisfies.1, hsatisfies.2⟩
  | halted halt after =>
    rw [houtcome] at hsatisfies
    exact hmachine.trans_above hinner hsatisfies

theorem identifier_writesOnly (name : String) :
    (identifier settings name frame).WritesOnly frame names := by
  intro old before
  have hget : (getVariable frame name).Ensures (Scopes.WritesOnly old frame names before)
      fun _ ↦ True :=
    ensures_getVariable fun _ _ ↦ trivial
  rw [identifier]
  refine .bind hget fun found _ ↦ ?_
  cases found with
  | some value => exact ensures_pure trivial
  | none =>
    dsimp only
    split
    · exact ensures_pure trivial
    · exact ensures_pure trivial

theorem evaluate_succ (h : WritesOnlyAt settings depth) {expression : Expr}
    (hnames : expression.letNames ⊆ names) :
    (Evaluation.evaluate settings (depth + 1) expression frame).WritesOnly frame names := by
  intro old before
  cases expression with
  | integer | string | boolean =>
    rw [Evaluation.evaluate]
    exact ensures_pure trivial
  | identifier name =>
    rw [Evaluation.evaluate]
    exact identifier_writesOnly name.value old before
  | function origin parameters body =>
    rw [Evaluation.evaluate]
    exact ensures_makeFunction fun _ ↦ trivial
  | unary origin operator right =>
    rw [Expr.letNames] at hnames
    rw [Evaluation.evaluate]
    exact .andThen (h.evaluate hnames old before) (fun _ ↦ trivial) fun _ _ ↦ ensures_pure trivial
  | binary origin left operator right | index origin left right =>
    rw [Expr.letNames, List.append_subset] at hnames
    rw [Evaluation.evaluate]
    refine .andThen (h.evaluate hnames.1 old before) (fun _ ↦ trivial) fun _ _ ↦ ?_
    refine .andThen (h.evaluate hnames.2 old before) (fun _ ↦ trivial) fun _ _ ↦ ?_
    exact ensures_pure trivial
  | conditional origin condition consequence alternative =>
    rw [Evaluation.evaluate]
    cases alternative with
    | none =>
      rw [Expr.letNames, List.append_subset] at hnames
      exact h.conditional hnames.1 hnames.2 (by simp) old before
    | some block =>
      rw [Expr.letNames, List.append_subset, List.append_subset] at hnames
      refine h.conditional hnames.1 hnames.2.1 ?_ old before
      rintro other ⟨⟩
      exact hnames.2.2
  | call origin callee arguments =>
    rw [Expr.letNames, List.append_subset] at hnames
    rw [Evaluation.evaluate]
    exact h.call hnames.1 hnames.2 old before
  | array origin elements =>
    rw [Expr.letNames] at hnames
    rw [Evaluation.evaluate]
    refine .bind (h.evaluateEach hnames old before) fun result _ ↦ ?_
    cases result with
    | error failure => exact ensures_pure trivial
    | ok values => exact ensures_pure trivial
  | hash origin pairs =>
    rw [Expr.letNames] at hnames
    rw [Evaluation.evaluate]
    exact h.hashLiteral hnames old before

theorem evaluateEach_succ (h : WritesOnlyAt settings depth) {expressions : List Expr}
    (hnames : Expr.letNamesIn expressions ⊆ names) :
    (Evaluation.evaluateEach settings (depth + 1) expressions frame).WritesOnly frame names := by
  intro old before
  have hexpressions (expression : Expr) (hmem : expression ∈ expressions) :
      (Evaluation.evaluate settings depth expression frame).WritesOnly frame names :=
    h.evaluate (List.Subset.trans (Expr.letNames_subset_of_mem hmem) hnames)
  rw [Evaluation.evaluateEach]
  exact (ensures_values fun expression hmem ↦ hexpressions expression hmem old before).mono
    fun _ _ ↦ trivial

theorem hashLiteral_succ (h : WritesOnlyAt settings depth) {pairs : List (Expr × Expr)}
    (hnames : Expr.letNamesInPairs pairs ⊆ names) :
    (Evaluation.hashLiteral settings (depth + 1) pairs frame).WritesOnly frame names := by
  intro old before
  have hkeys (pair : Expr × Expr) (hmem : pair ∈ pairs) :
      (Evaluation.evaluate settings depth pair.1 frame).WritesOnly frame names :=
    h.evaluate (List.Subset.trans (Expr.letNames_subset_of_mem_pairs hmem).1 hnames)
  have hvalues (pair : Expr × Expr) (hmem : pair ∈ pairs) :
      (Evaluation.evaluate settings depth pair.2 frame).WritesOnly frame names :=
    h.evaluate (List.Subset.trans (Expr.letNames_subset_of_mem_pairs hmem).2 hnames)
  rw [Evaluation.hashLiteral]
  exact ensures_hashPairs (fun pair hmem ↦ hkeys pair hmem old before)
    (fun pair hmem ↦ hvalues pair hmem old before) (List.forall_mem_nil _) (fun _ ↦ trivial)
    fun _ _ ↦ trivial

theorem execute_block (h : WritesOnlyAt settings depth) {block : Block}
    (hnames : block.letNames ⊆ names) :
    (Evaluation.execute settings depth (.block block) frame).WritesOnly frame names := by
  refine h.execute ?_
  rwa [Stmt.letNames]

theorem conditional_succ (h : WritesOnlyAt settings depth) {condition : Expr}
    {consequence : Block} {alternative : Option Block} (hcondition : condition.letNames ⊆ names)
    (hconsequence : consequence.letNames ⊆ names)
    (halternative : ∀ block ∈ alternative, block.letNames ⊆ names) :
    (Evaluation.conditional settings (depth + 1) condition consequence alternative
      frame).WritesOnly frame names := by
  intro old before
  cases alternative with
  | none =>
    rw [Evaluation.conditional]
    refine .andThen (h.evaluate hcondition old before) (fun _ ↦ trivial) fun value _ ↦ ?_
    refine .bind (ensures_note _ _ _ _) fun _ _ ↦ ?_
    split_ifs
    · exact .bind (h.execute_block hconsequence old before) fun _ _ ↦ ensures_pure trivial
    · exact ensures_pure trivial
  | some block =>
    rw [Evaluation.conditional]
    refine .andThen (h.evaluate hcondition old before) (fun _ ↦ trivial) fun value _ ↦ ?_
    refine .bind (ensures_note _ _ _ _) fun _ _ ↦ ?_
    split_ifs
    · exact .bind (h.execute_block hconsequence old before) fun _ _ ↦ ensures_pure trivial
    · exact .bind (h.execute_block (halternative block rfl) old before) fun _ _ ↦
        ensures_pure trivial

theorem call_succ (h : WritesOnlyAt settings depth) {callee : Expr} {arguments : List Expr}
    (hcallee : callee.letNames ⊆ names) (harguments : Expr.letNamesIn arguments ⊆ names) :
    (Evaluation.call settings (depth + 1) callee arguments frame).WritesOnly frame names := by
  intro old before
  rw [Evaluation.call]
  refine .andThen (h.evaluate hcallee old before) (fun _ ↦ trivial) fun value _ ↦ ?_
  split
  · rename_i closure
    refine .bind (ensures_openFrame fun scopes hscopes ↦ ⟨hscopes.newFrame _, hscopes.size⟩)
      fun inner hinner ↦ ?_
    have harguments (argument : Expr) (hmem : argument ∈ arguments) :
        (Evaluation.evaluate settings depth argument frame).Ensures
          (Scopes.WritesOnly old frame names before) fun _ ↦ True :=
      h.evaluate (List.Subset.trans (Expr.letNames_subset_of_mem hmem) harguments) old before
    refine .bind (ensures_bindArguments harguments fun name value scopes _ hscopes ↦ ?_)
      fun found _ ↦ ?_
    · exact hscopes.set fun hlt ↦ absurd hlt (not_lt.mpr hinner)
    cases found with
    | some failure => exact ensures_pure trivial
    | none =>
      refine .bind (ensures_note _ _ _ _) fun _ _ ↦ ?_
      have hbody : (Evaluation.execute settings depth (.block closure.body) inner).WritesOnly inner
          closure.body.letNames :=
        h.execute_block fun _ hmem ↦ hmem
      exact .bind (ensures_above hbody hinner before) fun _ _ ↦ ensures_pure trivial
  · refine .bind (h.evaluateEach harguments old before) fun result _ ↦ ?_
    cases result with
    | error failure => exact ensures_pure trivial
    | ok values =>
      refine .bind (ensures_note _ _ _ _) fun _ _ ↦ ?_
      exact Builtin.ensures_call _ (fun _ _ ↦ trivial) (fun _ _ ↦ trivial) trivial (fun _ ↦ trivial)
        fun _ ↦ iff_of_true trivial fun _ _ ↦ trivial
  · exact ensures_pure trivial

theorem execute_succ (h : WritesOnlyAt settings depth) {statement : Stmt}
    (hnames : statement.letNames ⊆ names) :
    (Evaluation.execute settings (depth + 1) statement frame).WritesOnly frame names := by
  intro old before
  cases statement with
  | expression origin expression =>
    rw [Stmt.letNames] at hnames
    rw [Evaluation.execute]
    exact .bind (h.evaluate hnames old before) fun _ _ ↦ ensures_pure trivial
  | block block =>
    obtain ⟨origin, statements⟩ := block
    rw [Stmt.letNames, Block.letNames] at hnames
    rw [Evaluation.execute]
    exact h.executeEach hnames old before
  | returning origin expression =>
    rw [Stmt.letNames] at hnames
    rw [Evaluation.execute]
    refine .bind (h.evaluate hnames old before) fun value _ ↦ ?_
    split
    · exact ensures_pure trivial
    · exact ensures_pure trivial
  | binding origin name expression =>
    rw [Stmt.letNames, List.cons_subset] at hnames
    rw [Evaluation.execute]
    refine .bind (h.evaluate hnames.2 old before) fun value _ ↦ ?_
    split
    · exact ensures_pure trivial
    · refine .bind (ensures_setVariable fun scopes hscopes ↦ ?_) fun _ _ ↦ ?_
      · exact hscopes.set fun _ ↦ ⟨rfl, hnames.1⟩
      · exact .bind (ensures_note _ _ _ _) fun _ _ ↦ ensures_pure trivial

theorem executeEach_succ (h : WritesOnlyAt settings depth) {statements : List Stmt}
    (hnames : Stmt.letNamesIn statements ⊆ names) :
    (Evaluation.executeEach settings (depth + 1) statements frame).WritesOnly frame names := by
  intro old before
  rw [Evaluation.executeEach]
  refine ensures_runEach (fun statement hmem ↦ ?_) trivial
  exact h.execute (List.Subset.trans (Stmt.letNames_subset_of_mem hmem) hnames) old before

theorem succ (h : WritesOnlyAt settings depth) : WritesOnlyAt settings (depth + 1) where
  evaluate := h.evaluate_succ
  evaluateEach := h.evaluateEach_succ
  hashLiteral := h.hashLiteral_succ
  conditional := h.conditional_succ
  call := h.call_succ
  execute := h.execute_succ
  executeEach := h.executeEach_succ

end WritesOnlyAt

theorem writesOnlyAt (settings : Settings) (depth : Nat) : WritesOnlyAt settings depth := by
  induction depth with
  | zero => exact writesOnlyAt_zero
  | succ depth ih => exact ih.succ

/-- Evaluating an expression or a statement in a frame changes no other frame that was there, takes
no frame its outer one, and binds in its own frame only names of `let` statements outside the
function literals of the evaluated code, also if it is halted. In particular the body of a function,
which runs in the frame of its call, changes no other frame that was there when it started. -/
theorem evaluation_writes_own_frame (settings : Settings) (depth : Nat) (frame : FrameId)
    (machine : Machine) :
    (∀ expression : Expr,
      Scopes.WritesOnly machine.scopes.frames.size frame expression.letNames machine.scopes
        (evaluate settings depth expression frame machine).machine.scopes) ∧
      (∀ statement : Stmt,
        Scopes.WritesOnly machine.scopes.frames.size frame statement.letNames machine.scopes
          (execute settings depth statement frame machine).machine.scopes) ∧
      ∀ body : Block, ∀ other < machine.scopes.frames.size, other ≠ frame →
        (execute settings depth (.block body) frame machine).machine.scopes.frames[other]? =
          machine.scopes.frames[other]? := by
  have hexecute (statement : Stmt) :
      Scopes.WritesOnly machine.scopes.frames.size frame statement.letNames machine.scopes
        (execute settings depth statement frame machine).machine.scopes :=
    ((writesOnlyAt settings depth).execute (fun _ hmem ↦ hmem) _ _ machine
      (.refl le_rfl)).invariant
  refine ⟨fun expression ↦ ?_, hexecute, fun body ↦ (hexecute (.block body)).others⟩
  exact ((writesOnlyAt settings depth).evaluate (fun _ hmem ↦ hmem) _ _ machine
    (.refl le_rfl)).invariant

end Evaluation

end MonkeyLang
