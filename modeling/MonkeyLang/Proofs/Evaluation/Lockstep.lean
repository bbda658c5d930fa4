import Mathlib.Tactic
import MonkeyLang.Proofs.Evaluation.Contents
import MonkeyLang.Proofs.Program.Nodes

/-!
# Runs in lockstep

Two runs of the same code under different settings, or with different numbers of nested steps left,
do the same things in the same order. What follows from that depends on how runs are compared, and
this module leaves it open: a relation between runs is *in lockstep* if it holds of every primitive
step of the two machines and of a run after another. It then holds of the evaluating functions, at
any depths at which it holds to begin with (`LockstepAt.add`), and of the statements of a program.
What is printed and traced depends on the nested steps that are left for its text, so there is also
a relation, the pace, of the numbers that can be left in the two runs at the same moment.

A relation may need to know what occurs on the way. A `Domain` says which nodes, values and frames
may occur, and is closed under what programs make of them; a result is a value of the domain or an
error, but never the error for too many nested steps, which only the end of the program makes. The
two settings need to agree on builtin functions only for names that may occur (`Domain.Mentions`).

The relation may also look at one of the two runs only, and then says what every run keeps to. How a
program ends is settled by how its statements have ended (`Program.run_eq_concluded`).
-/

set_option autoImplicit false

namespace MonkeyLang

/-! ### Domains -/

namespace Evaluation

/-- The nodes, values and frames that may occur in a run. -/
structure Domain where
  node : Node → Prop
  value : Value → Prop
  frame : FrameId → Prop
  value_of_isPlain : ∀ {found : Value}, found.isPlain → found.isError = false → value found
  returned_iff : ∀ {inner : Value}, value (.returned inner) ↔ value inner
  function_iff : ∀ {closure : Closure},
    value (.function closure) ↔ frame closure.frame ∧ closure.body.Every node
  array_iff : ∀ {elements : List Value},
    value (.array elements) ↔ ∀ element ∈ elements, value element
  hash_iff : ∀ {pairs : List (Key × Value)}, value (.hash pairs) ↔ ∀ pair ∈ pairs, value pair.2

namespace Domain

/-- Everything may occur. -/
def all : Domain where
  node _ := True
  value _ := True
  frame _ := True
  value_of_isPlain _ _ := trivial
  returned_iff := Iff.rfl
  function_iff := iff_of_true trivial ⟨trivial, Block.every_of_forall (fun _ ↦ trivial) _⟩
  array_iff := iff_of_true trivial fun _ _ ↦ trivial
  hash_iff := iff_of_true trivial fun _ _ ↦ trivial

variable (D : Domain)

/-- The name of an identifier that may occur. -/
def Mentions (name : String) : Prop :=
  ∃ origin, D.node (.expression (.identifier ⟨origin, name⟩))

/-- A value of the domain, or an error that is not the one for too many nested steps. -/
def Gives (found : Value) : Prop :=
  D.value found ∨ ∃ failure, found = .error failure ∧ failure.kind ≠ .depthExceeded

/-- A result that may be missing. -/
def GivesAny (result : Option Value) : Prop :=
  ∀ found ∈ result, D.Gives found

/-- The values of a list, or the error that has ended it. -/
def GivesEach : Except Failure (List Value) → Prop
  | .ok values => ∀ found ∈ values, D.value found
  | .error failure => D.Gives (.error failure)

variable {D}

theorem givesAny_none : D.GivesAny none :=
  fun _ hmem ↦ absurd hmem (Option.not_mem_none _)

theorem gives_error {failure : Failure} (hkind : failure.kind ≠ .depthExceeded) :
    D.Gives (.error failure) :=
  .inr ⟨failure, rfl, hkind⟩

theorem gives_of_isPlain {found : Value} (hplain : found.isPlain) (herror : found.isError = false) :
    D.Gives found :=
  .inl (D.value_of_isPlain hplain herror)

theorem Gives.value {found : Value} (h : D.Gives found)
    (hne : ∀ failure, found ≠ .error failure) : D.value found :=
  h.resolve_right fun ⟨failure, heq, _⟩ ↦ hne failure heq

theorem gives_ofInt (n : Int) : D.Gives (Value.ofInt n) := by
  rw [Value.ofInt]
  split_ifs
  · exact gives_error (by simp)
  · exact gives_of_isPlain rfl rfl

theorem gives_unary (operator : String) (right : Value) : D.Gives (Value.unary operator right) := by
  unfold Value.unary
  split
  · exact gives_of_isPlain rfl rfl
  · exact gives_ofInt _
  · exact gives_error (by simp)

theorem gives_binary (operator : String) (left right : Value) :
    D.Gives (Value.binary operator left right) := by
  have hunknown : D.Gives (Value.unknownBinary left operator right) := gives_error (by simp)
  unfold Value.binary
  split
  · unfold Value.integerBinary
    split
    · exact gives_ofInt _
    · exact gives_ofInt _
    · exact gives_ofInt _
    · split
      · exact gives_error (by simp)
      · exact gives_ofInt _
    · exact gives_of_isPlain rfl rfl
    · exact gives_of_isPlain rfl rfl
    · exact gives_of_isPlain rfl rfl
    · exact gives_of_isPlain rfl rfl
    · exact hunknown
  · unfold Value.booleanBinary
    split
    · exact gives_of_isPlain rfl rfl
    · exact gives_of_isPlain rfl rfl
    · exact hunknown
  · unfold Value.stringBinary
    split
    · exact gives_of_isPlain rfl rfl
    · exact gives_of_isPlain rfl rfl
    · exact gives_of_isPlain rfl rfl
    · exact hunknown
  · exact hunknown

theorem gives_index {left : Value} (hleft : D.value left) (place : Value) :
    D.Gives (Value.index left place) := by
  have hnull : D.Gives .null := gives_of_isPlain rfl rfl
  unfold Value.index
  split
  · rename_i elements i
    split_ifs
    · exact hnull
    · cases hget : elements[i.toNat]? with
      | none => exact hnull
      | some element =>
        exact .inl (D.array_iff.mp hleft element (List.mem_of_getElem? hget))
  · rename_i pairs
    split
    · rename_i key _
      cases hget : Entries.get? pairs key with
      | none => exact hnull
      | some found => exact .inl (D.hash_iff.mp hleft _ (Entries.mem_of_get? hget))
    · exact gives_error (by simp)
  · exact gives_error (by simp)

theorem gives_orNull {result : Option Value} (h : D.GivesAny result) : D.Gives (orNull result) := by
  cases result with
  | none => exact gives_of_isPlain rfl rfl
  | some found => exact h found rfl

/-- A wrapped value of the domain is one of the domain without its wrapper. -/
theorem Gives.unwrap {inner : Value} (h : D.Gives (.returned inner)) : D.Gives inner :=
  .inl (D.returned_iff.mp (h.value (by simp)))

theorem gives_callResult {result : Option Value} (h : D.GivesAny result) :
    D.Gives (callResult result) := by
  unfold callResult
  split
  · exact (h _ rfl).unwrap
  · exact gives_orNull h

end Domain

/-! ### Relations in lockstep -/

variable {α β : Type}

/-- The relation holds of the primitive steps under two settings, and goes on behind runs of which
it holds. It knows that the results of the two runs are the same, and a property of them. -/
structure Lockstep (D : Domain) (pace : Nat → Nat → Prop) (s₁ s₂ : Settings)
    (R : {α : Type} → (α → Prop) → Run α → Run α → Prop) : Prop where
  builtins : ∀ {name : String}, D.Mentions name →
    Entries.get? s₁.builtins name = Entries.get? s₂.builtins name
  pure : ∀ {α : Type} {Q : α → Prop} {found : α}, Q found → R Q (pure found) (pure found)
  bind : ∀ {α β : Type} {P : α → Prop} {Q : β → Prop} {first first' : Run α}
    {next next' : α → Run β}, R P first first' →
      (∀ found, P found → R Q (next found) (next' found)) →
        R Q (first >>= next) (first' >>= next')
  print : ∀ {d₁ d₂ : Nat} {found : Value}, pace d₁ d₂ → D.value found →
    R (fun _ ↦ True) (Run.print (some d₁) found) (Run.print (some d₂) found)
  openFrame : ∀ {outer : FrameId}, D.frame outer →
    R D.frame (Run.openFrame outer) (Run.openFrame outer)
  setVariable : ∀ {frame : FrameId} {name : String} {found : Value}, D.frame frame →
    D.value found → R (fun _ ↦ True) (Run.setVariable frame name found)
      (Run.setVariable frame name found)
  getVariable : ∀ {frame : FrameId} {name : String}, D.frame frame → D.Mentions name →
    R (fun result ↦ ∀ found ∈ result, D.value found) (Run.getVariable frame name)
      (Run.getVariable frame name)
  makeFunction : ∀ {parameters : List Identifier} {body : Block} {frame : FrameId},
    D.frame frame → body.Every D.node → R D.Gives (Run.makeFunction parameters body frame)
      (Run.makeFunction parameters body frame)
  noteBinding : ∀ {d₁ d₂ : Nat} (name : String) (found : Value), pace d₁ d₂ →
    R (fun _ ↦ True) (noteBinding s₁ (some d₁) name found) (noteBinding s₂ (some d₂) name found)
  noteCondition : ∀ {d₁ d₂ : Nat} (found : Value), pace d₁ d₂ →
    R (fun _ ↦ True) (noteCondition s₁ (some d₁) found) (noteCondition s₂ (some d₂) found)
  noteBuiltin : ∀ {d₁ d₂ : Nat} (builtin : Builtin) (values : List Value), pace d₁ d₂ →
    R (fun _ ↦ True) (noteBuiltin s₁ (some d₁) builtin values)
      (noteBuiltin s₂ (some d₂) builtin values)
  noteCall : ∀ {d₁ d₂ : Nat} {callee : Expr} (count : Nat), pace d₁ d₂ → callee.Every D.node →
    R (fun _ ↦ True) (noteCall s₁ (some d₁) callee count) (noteCall s₂ (some d₂) callee count)
  noteStatement : ∀ {d₁ d₂ : Nat} {statement : Stmt} (result : Option Value), pace d₁ d₂ →
    statement.Every D.node → R (fun _ ↦ True) (noteStatement s₁ (some d₁) statement result)
      (noteStatement s₂ (some d₂) statement result)

namespace Lockstep

variable {D : Domain} {pace : Nat → Nat → Prop} {s₁ s₂ : Settings}
  {R : {α : Type} → (α → Prop) → Run α → Run α → Prop}

/-- Behind a value, with an error passed on as the result. -/
theorem andThen (h : Lockstep D pace s₁ s₂ R) {first first' : Run Value}
    {next next' : Value → Run Value} (hfirst : R D.Gives first first')
    (hnext : ∀ found, D.value found → R D.Gives (next found) (next' found)) :
    R D.Gives (first.andThen next) (first'.andThen next') := by
  rw [Run.andThen_eq_bind first, Run.andThen_eq_bind first']
  refine h.bind hfirst fun found hfound ↦ ?_
  cases found with
  | error failure => exact h.pure hfound
  | _ => exact hnext _ (hfound.value (by simp))

/-! ### Loops -/

theorem values (h : Lockstep D pace s₁ s₂ R) {evaluate evaluate' : α → Run Value} {items : List α}
    (hitems : ∀ item ∈ items, R D.Gives (evaluate item) (evaluate' item)) :
    R D.GivesEach (values evaluate items) (Evaluation.values evaluate' items) := by
  induction items with
  | nil => exact h.pure (List.forall_mem_nil _)
  | cons item rest ih =>
    rw [Evaluation.values, Evaluation.values]
    refine h.bind (hitems item (.head _)) fun found hfound ↦ ?_
    split
    · exact h.pure hfound
    · rename_i hne
      refine h.bind (ih fun next hnext ↦ hitems next (.tail _ hnext)) fun result hresult ↦ ?_
      cases result with
      | error failure => exact h.pure hresult
      | ok others => exact h.pure (List.forall_mem_cons.mpr ⟨hfound.value hne, hresult⟩)

theorem bindArguments (h : Lockstep D pace s₁ s₂ R) {evaluate evaluate' : α → Run Value}
    {frame : FrameId} (hframe : D.frame frame) {parameters : List Identifier} {arguments : List α}
    (harguments : ∀ argument ∈ arguments, R D.Gives (evaluate argument) (evaluate' argument)) :
    R (fun result ↦ ∀ failure ∈ result, D.Gives (.error failure))
      (bindArguments evaluate frame parameters arguments)
      (Evaluation.bindArguments evaluate' frame parameters arguments) := by
  induction arguments generalizing parameters with
  | nil =>
    cases parameters with
    | nil => exact h.pure nofun
    | cons parameter parameters => exact h.pure nofun
  | cons argument rest ih =>
    cases parameters with
    | nil => exact h.pure nofun
    | cons parameter parameters =>
      rw [Evaluation.bindArguments, Evaluation.bindArguments]
      refine h.bind (harguments argument (.head _)) fun found hfound ↦ ?_
      split
      · refine h.pure ?_
        rintro failure ⟨⟩
        exact hfound
      · rename_i hne
        refine h.bind (h.setVariable hframe (hfound.value hne)) fun _ _ ↦ ?_
        exact ih fun next hnext ↦ harguments next (.tail _ hnext)

theorem hashPairs (h : Lockstep D pace s₁ s₂ R) {evaluate evaluate' : α → Run Value}
    {pairs : List (α × α)} {done : List (Key × Value)}
    (hpairs : ∀ pair ∈ pairs, R D.Gives (evaluate pair.1) (evaluate' pair.1) ∧
      R D.Gives (evaluate pair.2) (evaluate' pair.2))
    (hdone : ∀ entry ∈ done, D.value entry.2) :
    R D.Gives (hashPairs evaluate pairs done) (Evaluation.hashPairs evaluate' pairs done) := by
  induction pairs generalizing done with
  | nil => exact h.pure (.inl (D.hash_iff.mpr hdone))
  | cons pair rest ih =>
    obtain ⟨key, value⟩ := pair
    obtain ⟨hkey, hvalue⟩ := hpairs _ (.head _)
    rw [Evaluation.hashPairs, Evaluation.hashPairs]
    refine h.andThen hkey fun k _ ↦ ?_
    cases k.key? with
    | none => exact h.pure (Domain.gives_error (by simp))
    | some found =>
      refine h.andThen hvalue fun v hv ↦ ?_
      refine ih (fun next hnext ↦ hpairs next (.tail _ hnext)) fun entry hentry ↦ ?_
      rcases Entries.mem_put hentry with rfl | hentry
      · exact hv
      · exact hdone entry hentry

theorem runEach (h : Lockstep D pace s₁ s₂ R) {execute execute' : α → Run (Option Value)}
    {statements : List α} {result : Option Value}
    (hstatements : ∀ statement ∈ statements, R D.GivesAny (execute statement) (execute' statement))
    (hresult : D.GivesAny result) :
    R D.GivesAny (runEach execute result statements)
      (Evaluation.runEach execute' result statements) := by
  induction statements generalizing result with
  | nil => exact h.pure hresult
  | cons statement rest ih =>
    rw [Evaluation.runEach, Evaluation.runEach]
    refine h.bind (hstatements statement (.head _)) fun found hfound ↦ ?_
    split
    · exact h.pure hfound
    · exact h.pure hfound
    · exact ih (fun next hnext ↦ hstatements next (.tail _ hnext)) hfound

/-! ### Builtin functions -/

theorem printEach (h : Lockstep D pace s₁ s₂ R) {d₁ d₂ : Nat} (hpace : pace d₁ d₂)
    {values : List Value} (hvalues : ∀ found ∈ values, D.value found) :
    R (fun _ ↦ True) (Builtin.printEach (some d₁) values) (Builtin.printEach (some d₂) values) := by
  induction values with
  | nil => exact h.pure trivial
  | cons found rest ih =>
    rw [Builtin.printEach, Builtin.printEach]
    refine h.bind (h.print hpace (hvalues found (.head _))) fun _ _ ↦ ?_
    exact ih fun next hnext ↦ hvalues next (.tail _ hnext)

theorem builtinCall (h : Lockstep D pace s₁ s₂ R) {d₁ d₂ : Nat} (hpace : pace d₁ d₂)
    (builtin : Builtin) {arguments : List Value}
    (harguments : ∀ argument ∈ arguments, D.value argument) :
    R D.Gives (builtin.call (some d₁) arguments) (builtin.call (some d₂) arguments) := by
  have hnull : D.Gives .null := Domain.gives_of_isPlain rfl rfl
  have hresult :
      R D.Gives (builtin.result (some d₁) arguments) (builtin.result (some d₂) arguments) := by
    unfold Builtin.result
    split
    · exact h.pure (Domain.gives_of_isPlain rfl rfl)
    · exact h.pure (Domain.gives_of_isPlain rfl rfl)
    · rename_i elements
      have helements := D.array_iff.mp (harguments _ (.head _))
      refine h.pure ?_
      cases elements with
      | nil => exact hnull
      | cons element rest => exact .inl (helements element (.head _))
    · rename_i elements
      have helements := D.array_iff.mp (harguments _ (.head _))
      refine h.pure ?_
      cases hlast : elements.getLast? with
      | none => exact hnull
      | some element => exact .inl (helements element (List.mem_of_getLast? hlast))
    · have helements := D.array_iff.mp (harguments _ (.head _))
      refine h.pure (.inl (D.array_iff.mpr fun element helement ↦ ?_))
      exact helements element (List.mem_of_mem_tail helement)
    · rename_i item
      have helements := D.array_iff.mp (harguments _ (.head _))
      refine h.pure (.inl (D.array_iff.mpr fun element helement ↦ ?_))
      rcases List.mem_append.mp helement with helement | helement
      · exact helements element helement
      · rw [List.mem_singleton.mp helement]
        exact harguments item (.tail _ (.head _))
    · exact h.bind (h.printEach hpace harguments) fun _ _ ↦ h.pure hnull
    · exact h.pure (Domain.gives_error (by simp))
  rw [Builtin.call, Builtin.call]
  split
  · split_ifs
    · exact hresult
    · exact h.pure (Domain.gives_error (by simp))
  · exact hresult

end Lockstep

/-! ### The evaluator -/

/-- The relation holds of the evaluating functions when `d₁` nested steps are allowed in the first
run and `d₂` in the second. -/
structure LockstepAt (D : Domain) (s₁ s₂ : Settings)
    (R : {α : Type} → (α → Prop) → Run α → Run α → Prop) (d₁ d₂ : Nat) : Prop where
  evaluate : ∀ {frame : FrameId} {expression : Expr}, D.frame frame → expression.Every D.node →
    R D.Gives (evaluate s₁ d₁ expression frame) (evaluate s₂ d₂ expression frame)
  evaluateEach : ∀ {frame : FrameId} {expressions : List Expr}, D.frame frame →
    (∀ expression ∈ expressions, expression.Every D.node) →
      R D.GivesEach (evaluateEach s₁ d₁ expressions frame) (evaluateEach s₂ d₂ expressions frame)
  hashLiteral : ∀ {frame : FrameId} {pairs : List (Expr × Expr)}, D.frame frame →
    (∀ pair ∈ pairs, pair.1.Every D.node ∧ pair.2.Every D.node) →
      R D.Gives (hashLiteral s₁ d₁ pairs frame) (hashLiteral s₂ d₂ pairs frame)
  conditional : ∀ {frame : FrameId} {condition : Expr} {consequence : Block}
      {alternative : Option Block}, D.frame frame → condition.Every D.node →
    consequence.Every D.node → (∀ block ∈ alternative, block.Every D.node) →
      R D.Gives (conditional s₁ d₁ condition consequence alternative frame)
        (conditional s₂ d₂ condition consequence alternative frame)
  call : ∀ {frame : FrameId} {callee : Expr} {arguments : List Expr}, D.frame frame →
    callee.Every D.node → (∀ argument ∈ arguments, argument.Every D.node) →
      R D.Gives (call s₁ d₁ callee arguments frame) (call s₂ d₂ callee arguments frame)
  execute : ∀ {frame : FrameId} {statement : Stmt}, D.frame frame → statement.Every D.node →
    R D.GivesAny (execute s₁ d₁ statement frame) (execute s₂ d₂ statement frame)
  executeEach : ∀ {frame : FrameId} {statements : List Stmt}, D.frame frame →
    (∀ statement ∈ statements, statement.Every D.node) →
      R D.GivesAny (executeEach s₁ d₁ statements frame) (executeEach s₂ d₂ statements frame)

namespace LockstepAt

variable {D : Domain} {pace : Nat → Nat → Prop} {s₁ s₂ : Settings}
  {R : {α : Type} → (α → Prop) → Run α → Run α → Prop} {d₁ d₂ : Nat} {frame : FrameId}

/-- With no nested step allowed in either run both are halted at once. -/
theorem zero (hhalt : ∀ {α : Type} {Q : α → Prop}, R Q (Run.halt .depth) (Run.halt .depth)) :
    LockstepAt D s₁ s₂ R 0 0 := by
  constructor
  all_goals
    intros
    simp only [Evaluation.evaluate, Evaluation.evaluateEach, Evaluation.hashLiteral,
      Evaluation.conditional, Evaluation.call, Evaluation.execute, Evaluation.executeEach]
    exact hhalt

theorem identifier (hR : Lockstep D pace s₁ s₂ R) (hframe : D.frame frame) {name : String}
    (hname : D.Mentions name) :
    R D.Gives (identifier s₁ name frame) (Evaluation.identifier s₂ name frame) := by
  rw [Evaluation.identifier, Evaluation.identifier]
  refine hR.bind (hR.getVariable hframe hname) fun result hresult ↦ ?_
  cases result with
  | some found => exact hR.pure (.inl (hresult found rfl))
  | none =>
    dsimp only
    rw [hR.builtins hname]
    split
    · exact hR.pure (Domain.gives_of_isPlain rfl rfl)
    · exact hR.pure (Domain.gives_error (by simp))

theorem evaluate_succ (hR : Lockstep D pace s₁ s₂ R) (h : LockstepAt D s₁ s₂ R d₁ d₂)
    {expression : Expr} (hframe : D.frame frame) (hnodes : expression.Every D.node) :
    R D.Gives (Evaluation.evaluate s₁ (d₁ + 1) expression frame)
      (Evaluation.evaluate s₂ (d₂ + 1) expression frame) := by
  cases expression with
  | integer | string | boolean =>
    rw [Evaluation.evaluate, Evaluation.evaluate]
    exact hR.pure (Domain.gives_of_isPlain rfl rfl)
  | identifier name =>
    rw [Expr.Every] at hnodes
    rw [Evaluation.evaluate, Evaluation.evaluate]
    exact identifier hR hframe ⟨name.origin, hnodes⟩
  | function origin parameters body =>
    rw [Expr.Every] at hnodes
    rw [Evaluation.evaluate, Evaluation.evaluate]
    exact hR.makeFunction hframe hnodes.2
  | unary origin operator right =>
    rw [Expr.Every] at hnodes
    rw [Evaluation.evaluate, Evaluation.evaluate]
    exact hR.andThen (h.evaluate hframe hnodes.2) fun _ _ ↦ hR.pure (Domain.gives_unary _ _)
  | binary origin left operator right =>
    rw [Expr.Every] at hnodes
    rw [Evaluation.evaluate, Evaluation.evaluate]
    refine hR.andThen (h.evaluate hframe hnodes.2.1) fun _ _ ↦ ?_
    exact hR.andThen (h.evaluate hframe hnodes.2.2) fun _ _ ↦ hR.pure (Domain.gives_binary _ _ _)
  | index origin left place =>
    rw [Expr.Every] at hnodes
    rw [Evaluation.evaluate, Evaluation.evaluate]
    refine hR.andThen (h.evaluate hframe hnodes.2.1) fun found hfound ↦ ?_
    exact hR.andThen (h.evaluate hframe hnodes.2.2) fun spot _ ↦
      hR.pure (Domain.gives_index hfound spot)
  | conditional origin condition consequence alternative =>
    rw [Evaluation.evaluate, Evaluation.evaluate]
    cases alternative with
    | none =>
      rw [Expr.Every] at hnodes
      exact h.conditional hframe hnodes.2.1 hnodes.2.2 (by simp)
    | some block =>
      rw [Expr.Every] at hnodes
      refine h.conditional hframe hnodes.2.1 hnodes.2.2.1 ?_
      rintro other ⟨⟩
      exact hnodes.2.2.2
  | call origin callee arguments =>
    rw [Expr.Every, Expr.everyIn_iff] at hnodes
    rw [Evaluation.evaluate, Evaluation.evaluate]
    exact h.call hframe hnodes.2.1 hnodes.2.2
  | array origin elements =>
    rw [Expr.Every, Expr.everyIn_iff] at hnodes
    rw [Evaluation.evaluate, Evaluation.evaluate]
    refine hR.bind (h.evaluateEach hframe hnodes.2) fun result hresult ↦ ?_
    cases result with
    | error failure => exact hR.pure hresult
    | ok values => exact hR.pure (.inl (D.array_iff.mpr hresult))
  | hash origin pairs =>
    rw [Expr.Every, Expr.everyInPairs_iff] at hnodes
    rw [Evaluation.evaluate, Evaluation.evaluate]
    exact h.hashLiteral hframe hnodes.2

theorem evaluateEach_succ (hR : Lockstep D pace s₁ s₂ R) (h : LockstepAt D s₁ s₂ R d₁ d₂)
    {expressions : List Expr} (hframe : D.frame frame)
    (hnodes : ∀ expression ∈ expressions, expression.Every D.node) :
    R D.GivesEach (Evaluation.evaluateEach s₁ (d₁ + 1) expressions frame)
      (Evaluation.evaluateEach s₂ (d₂ + 1) expressions frame) := by
  rw [Evaluation.evaluateEach, Evaluation.evaluateEach]
  exact hR.values fun expression hmem ↦ h.evaluate hframe (hnodes expression hmem)

theorem hashLiteral_succ (hR : Lockstep D pace s₁ s₂ R) (h : LockstepAt D s₁ s₂ R d₁ d₂)
    {pairs : List (Expr × Expr)} (hframe : D.frame frame)
    (hnodes : ∀ pair ∈ pairs, pair.1.Every D.node ∧ pair.2.Every D.node) :
    R D.Gives (Evaluation.hashLiteral s₁ (d₁ + 1) pairs frame)
      (Evaluation.hashLiteral s₂ (d₂ + 1) pairs frame) := by
  rw [Evaluation.hashLiteral, Evaluation.hashLiteral]
  refine hR.hashPairs (fun pair hmem ↦ ?_) (List.forall_mem_nil _)
  exact ⟨h.evaluate hframe (hnodes pair hmem).1, h.evaluate hframe (hnodes pair hmem).2⟩

/-- A block as the branch of a condition or the body of a call. -/
theorem execute_block (h : LockstepAt D s₁ s₂ R d₁ d₂) (hframe : D.frame frame) {block : Block}
    (hnodes : block.Every D.node) :
    R D.GivesAny (Evaluation.execute s₁ d₁ (.block block) frame)
      (Evaluation.execute s₂ d₂ (.block block) frame) :=
  h.execute hframe (by rwa [Stmt.Every])

theorem conditional_succ (hR : Lockstep D pace s₁ s₂ R) (hpace : pace d₁ d₂)
    (h : LockstepAt D s₁ s₂ R d₁ d₂)
    {condition : Expr} {consequence : Block} {alternative : Option Block}
    (hframe : D.frame frame) (hcondition : condition.Every D.node)
    (hconsequence : consequence.Every D.node)
    (halternative : ∀ block ∈ alternative, block.Every D.node) :
    R D.Gives (Evaluation.conditional s₁ (d₁ + 1) condition consequence alternative frame)
      (Evaluation.conditional s₂ (d₂ + 1) condition consequence alternative frame) := by
  have hbranch {block : Block} (hblock : block.Every D.node) :
      R D.Gives (Evaluation.execute s₁ d₁ (.block block) frame >>= fun result ↦
          pure (orNull result))
        (Evaluation.execute s₂ d₂ (.block block) frame >>= fun result ↦
          pure (orNull result)) :=
    hR.bind (h.execute_block hframe hblock) fun _ hresult ↦ hR.pure (Domain.gives_orNull hresult)
  cases alternative with
  | none =>
    rw [Evaluation.conditional, Evaluation.conditional]
    refine hR.andThen (h.evaluate hframe hcondition) fun found _ ↦ ?_
    refine hR.bind (hR.noteCondition found hpace) fun _ _ ↦ ?_
    split_ifs
    · exact hbranch hconsequence
    · exact hR.pure (Domain.gives_of_isPlain rfl rfl)
  | some block =>
    rw [Evaluation.conditional, Evaluation.conditional]
    refine hR.andThen (h.evaluate hframe hcondition) fun found _ ↦ ?_
    refine hR.bind (hR.noteCondition found hpace) fun _ _ ↦ ?_
    split_ifs
    · exact hbranch hconsequence
    · exact hbranch (halternative block rfl)

theorem call_succ (hR : Lockstep D pace s₁ s₂ R) (hpace : pace d₁ d₂)
    (h : LockstepAt D s₁ s₂ R d₁ d₂)
    {callee : Expr} {arguments : List Expr} (hframe : D.frame frame)
    (hcallee : callee.Every D.node) (harguments : ∀ argument ∈ arguments, argument.Every D.node) :
    R D.Gives (Evaluation.call s₁ (d₁ + 1) callee arguments frame)
      (Evaluation.call s₂ (d₂ + 1) callee arguments frame) := by
  rw [Evaluation.call, Evaluation.call]
  refine hR.andThen (h.evaluate hframe hcallee) fun found hfound ↦ ?_
  split
  · rename_i closure
    obtain ⟨houter, hbody⟩ := D.function_iff.mp hfound
    refine hR.bind (hR.openFrame houter) fun inner hinner ↦ ?_
    refine hR.bind (hR.bindArguments hinner fun argument hmem ↦
      h.evaluate hframe (harguments argument hmem)) fun result hresult ↦ ?_
    cases result with
    | some failure => exact hR.pure (hresult failure rfl)
    | none =>
      refine hR.bind (hR.noteCall _ hpace hcallee) fun _ _ ↦ ?_
      exact hR.bind (h.execute_block hinner hbody) fun _ hbodyResult ↦
        hR.pure (Domain.gives_callResult hbodyResult)
  · refine hR.bind (h.evaluateEach hframe harguments) fun result hresult ↦ ?_
    cases result with
    | error failure => exact hR.pure hresult
    | ok values =>
      refine hR.bind (hR.noteBuiltin _ _ hpace) fun _ _ ↦ ?_
      exact hR.builtinCall hpace _ hresult
  · exact hR.pure (Domain.gives_error (by simp))

theorem execute_succ (hR : Lockstep D pace s₁ s₂ R) (hpace : pace d₁ d₂)
    (h : LockstepAt D s₁ s₂ R d₁ d₂)
    {statement : Stmt} (hframe : D.frame frame) (hnodes : statement.Every D.node) :
    R D.GivesAny (Evaluation.execute s₁ (d₁ + 1) statement frame)
      (Evaluation.execute s₂ (d₂ + 1) statement frame) := by
  have hsome {found : Value} (hfound : D.Gives found) : D.GivesAny (some found) := by
    rintro other ⟨⟩
    exact hfound
  cases statement with
  | expression origin expression =>
    rw [Stmt.Every] at hnodes
    rw [Evaluation.execute, Evaluation.execute]
    exact hR.bind (h.evaluate hframe hnodes.2) fun _ hfound ↦ hR.pure (hsome hfound)
  | block block =>
    obtain ⟨origin, statements⟩ := block
    rw [Stmt.Every, Block.Every, Stmt.everyIn_iff] at hnodes
    rw [Evaluation.execute, Evaluation.execute]
    exact h.executeEach hframe hnodes.2
  | returning origin expression =>
    rw [Stmt.Every] at hnodes
    rw [Evaluation.execute, Evaluation.execute]
    refine hR.bind (h.evaluate hframe hnodes.2) fun found hfound ↦ ?_
    split
    · exact hR.pure (hsome hfound)
    · rename_i hne
      exact hR.pure (hsome (.inl (D.returned_iff.mpr (hfound.value hne))))
  | binding origin name expression =>
    rw [Stmt.Every] at hnodes
    rw [Evaluation.execute, Evaluation.execute]
    refine hR.bind (h.evaluate hframe hnodes.2) fun found hfound ↦ ?_
    split
    · exact hR.pure (hsome hfound)
    · rename_i hne
      refine hR.bind (hR.setVariable hframe (hfound.value hne)) fun _ _ ↦ ?_
      exact hR.bind (hR.noteBinding _ _ hpace) fun _ _ ↦ hR.pure Domain.givesAny_none

theorem executeEach_succ (hR : Lockstep D pace s₁ s₂ R) (h : LockstepAt D s₁ s₂ R d₁ d₂)
    {statements : List Stmt} (hframe : D.frame frame)
    (hnodes : ∀ statement ∈ statements, statement.Every D.node) :
    R D.GivesAny (Evaluation.executeEach s₁ (d₁ + 1) statements frame)
      (Evaluation.executeEach s₂ (d₂ + 1) statements frame) := by
  rw [Evaluation.executeEach, Evaluation.executeEach]
  exact hR.runEach (fun statement hmem ↦ h.execute hframe (hnodes statement hmem))
    Domain.givesAny_none

theorem succ (hR : Lockstep D pace s₁ s₂ R) (hpace : pace d₁ d₂)
    (h : LockstepAt D s₁ s₂ R d₁ d₂) : LockstepAt D s₁ s₂ R (d₁ + 1) (d₂ + 1) where
  evaluate := evaluate_succ hR h
  evaluateEach := evaluateEach_succ hR h
  hashLiteral := hashLiteral_succ hR h
  conditional := conditional_succ hR hpace h
  call := call_succ hR hpace h
  execute := execute_succ hR hpace h
  executeEach := executeEach_succ hR h

/-- At the same depth, if the relation holds of two runs that are halted at once. -/
theorem same (hR : Lockstep D pace s₁ s₂ R) (hpace : ∀ depth, pace depth depth)
    (hhalt : ∀ {α : Type} {Q : α → Prop}, R Q (Run.halt .depth) (Run.halt .depth)) (depth : Nat) :
    LockstepAt D s₁ s₂ R depth depth := by
  induction depth with
  | zero => exact zero hhalt
  | succ depth ih => exact ih.succ hR (hpace depth)

/-- As many more steps in both runs. -/
theorem add (hR : Lockstep D pace s₁ s₂ R) (hpace : ∀ more, pace (d₁ + more) (d₂ + more))
    (h : LockstepAt D s₁ s₂ R d₁ d₂) (more : Nat) :
    LockstepAt D s₁ s₂ R (d₁ + more) (d₂ + more) := by
  induction more with
  | zero => exact h
  | succ more ih => exact ih.succ hR (hpace more)

/-- A returned value ends the program and is taken out of its wrapper. -/
theorem programResult (hR : Lockstep D pace s₁ s₂ R) (hpace : pace s₁.depthLimit s₂.depthLimit)
    (h : LockstepAt D s₁ s₂ R s₁.depthLimit s₂.depthLimit) (hframe : D.frame frame)
    {statements : List Stmt} (hnodes : ∀ statement ∈ statements, statement.Every D.node)
    {result : Option Value} (hresult : D.GivesAny result) :
    R D.GivesAny (programResult s₁ frame result statements)
      (Evaluation.programResult s₂ frame result statements) := by
  induction statements generalizing result with
  | nil => exact hR.pure hresult
  | cons statement rest ih =>
    have hstatement := hnodes statement (.head _)
    rw [Evaluation.programResult, Evaluation.programResult]
    refine hR.bind (h.execute hframe hstatement) fun found hfound ↦ ?_
    refine hR.bind (hR.noteStatement found hpace hstatement) fun _ _ ↦ ?_
    split
    · refine hR.pure ?_
      rintro inner ⟨⟩
      exact (hfound _ rfl).unwrap
    · exact hR.pure hfound
    · exact ih (fun next hnext ↦ hnodes next (.tail _ hnext)) hfound

end LockstepAt

end Evaluation

/-! ### The end of a program -/

/-- There were too many nested steps. -/
def Program.ReachesLimit (settings : Settings) (program : Program) (frame : FrameId)
    (machine : Machine) : Prop :=
  ∃ after, Evaluation.programResult settings frame none program.statements machine =
    .halted .depth after

/-- What the trace shows when there were too many nested steps. -/
def Settings.limitEvents (settings : Settings) : List Event :=
  if 1 ≤ settings.verbosity then [⟨1, "recursion limit reached"⟩] else []

namespace Machine

def noteLimit (settings : Settings) (machine : Machine) : Machine :=
  { machine with trace := machine.trace ++ settings.limitEvents }

variable (settings : Settings) (machine : Machine)

@[simp] theorem trace_noteLimit :
    (machine.noteLimit settings).trace.toList = machine.trace.toList ++ settings.limitEvents :=
  Array.toList_appendList

end Machine

/-- How a program ends when its statements have ended in this way. -/
def Outcome.concluded (settings : Settings) : Outcome (Option Value) → Outcome (Option Value)
  | .halted .depth machine =>
    .done (some (.error ⟨.depthExceeded, ""⟩)) (machine.noteLimit settings)
  | outcome => outcome

/-- The error that is the result of a program. -/
def Outcome.failure? : Outcome (Option Value) → Option Failure
  | .done result _ => result.bind Value.failure?
  | .halted _ _ => none

theorem Outcome.eq_done_of_failure? {outcome : Outcome (Option Value)} {failure : Failure}
    (h : outcome.failure? = some failure) :
    outcome = .done (some (.error failure)) outcome.machine := by
  cases outcome with
  | halted halt machine => cases h
  | done result machine =>
    obtain ⟨value, rfl, hvalue⟩ := Option.bind_eq_some_iff.mp h
    cases value with
    | error other =>
      obtain rfl := Option.some.inj hvalue
      rfl
    | _ => cases hvalue

theorem Program.run_eq_concluded (settings : Settings) (program : Program) (frame : FrameId)
    (machine : Machine) :
    program.run settings frame machine =
      (Evaluation.programResult settings frame none program.statements machine).concluded
        settings := by
  rw [Program.run]
  split
  · rename_i halted heq
    rw [heq, Outcome.concluded, Run.bind, Run.note, Machine.noteLimit, Settings.limitEvents,
      Nat.cast_one]
    split_ifs
    · rfl
    · rw [Array.appendList_nil]
      rfl
  · rename_i hne
    cases hresult : Evaluation.programResult settings frame none program.statements machine with
    | done result after => rfl
    | halted halt after =>
      cases halt with
      | depth => exact absurd hresult (hne after)
      | nonText literal => rfl

end MonkeyLang
