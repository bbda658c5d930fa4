import Mathlib.Tactic
import MonkeyLang.Proofs.Evaluation.Contents

/-!
# Where returned values stay

A `return` statement wraps its value, and the blocks around it hand the wrapped value on to the call
that it ends or to the end of the program. A condition hands on what its block gives too, also where
it is not a statement of its own: as the value of a `let` or `return` statement, an argument, an
element of an array or a value of a hash, the wrapped value is then kept as if it were an ordinary
one. A tree is *tame* if no condition that may hand on a returned value stands in one of these
places; everywhere else one is harmless, because operators, indices, calls and keys make an error of
it and conditions only test it.

Tame programs never let a wrapped value out. The invariant is that every binding holds only settled
values: no wrapped ones, and only functions with tame bodies.
-/

set_option autoImplicit false

namespace MonkeyLang

/-! ### Tame trees -/

mutual

/-- Whether the value may be a wrapped one: a condition with a block that may hand one on. -/
def Expr.handsOn : Expr → Bool
  | .conditional _ _ consequence none => consequence.handsOn
  | .conditional _ _ consequence (some alternative) => consequence.handsOn || alternative.handsOn
  | _ => false

def Stmt.handsOn : Stmt → Bool
  | .binding _ _ _ => false
  | .returning _ _ => true
  | .expression _ tree => tree.handsOn
  | .block body => body.handsOn

def Stmt.handsOnIn : List Stmt → Bool
  | [] => false
  | statement :: rest => statement.handsOn || Stmt.handsOnIn rest

def Block.handsOn : Block → Bool
  | .mk _ statements => Stmt.handsOnIn statements

end

mutual

/-- Whether no value that is kept may be a wrapped one. -/
def Expr.tame : Expr → Bool
  | .identifier _ | .integer _ _ | .boolean _ _ | .string _ _ => true
  | .unary _ _ right => right.tame
  | .binary _ left _ right => left.tame && right.tame
  | .conditional _ condition consequence none => condition.tame && consequence.tame
  | .conditional _ condition consequence (some alternative) =>
    condition.tame && consequence.tame && alternative.tame
  | .function _ _ body => body.tame
  | .call _ callee arguments => callee.tame && Expr.keptEach arguments
  | .array _ elements => Expr.keptEach elements
  | .index _ left place => left.tame && place.tame
  | .hash _ pairs => Expr.keptPairs pairs

/-- Expressions whose values are kept. -/
def Expr.keptEach : List Expr → Bool
  | [] => true
  | expression :: rest => expression.tame && !expression.handsOn && Expr.keptEach rest

def Expr.keptPairs : List (Expr × Expr) → Bool
  | [] => true
  | (key, value) :: rest => key.tame && value.tame && !value.handsOn && Expr.keptPairs rest

def Stmt.tame : Stmt → Bool
  | .binding _ _ value | .returning _ value => value.tame && !value.handsOn
  | .expression _ tree => tree.tame
  | .block body => body.tame

def Stmt.tameEach : List Stmt → Bool
  | [] => true
  | statement :: rest => statement.tame && Stmt.tameEach rest

def Block.tame : Block → Bool
  | .mk _ statements => Stmt.tameEach statements

end

def Program.tame (program : Program) : Bool :=
  Stmt.tameEach program.statements

theorem Expr.kept_of_mem {expressions : List Expr} (hkept : Expr.keptEach expressions)
    {expression : Expr} (hmem : expression ∈ expressions) :
    expression.tame ∧ expression.handsOn = false := by
  induction expressions with
  | nil => cases hmem
  | cons first rest ih =>
    simp only [Expr.keptEach, Bool.and_eq_true, Bool.not_eq_true'] at hkept
    rcases List.mem_cons.mp hmem with rfl | hmem
    · exact hkept.1
    · exact ih hkept.2 hmem

theorem Expr.kept_of_mem_pairs {pairs : List (Expr × Expr)} (hkept : Expr.keptPairs pairs)
    {pair : Expr × Expr} (hmem : pair ∈ pairs) :
    pair.1.tame ∧ pair.2.tame ∧ pair.2.handsOn = false := by
  induction pairs with
  | nil => cases hmem
  | cons first rest ih =>
    obtain ⟨key, value⟩ := first
    simp only [Expr.keptPairs, Bool.and_eq_true, Bool.not_eq_true'] at hkept
    rcases List.mem_cons.mp hmem with rfl | hmem
    · exact ⟨hkept.1.1.1, hkept.1.1.2, hkept.1.2⟩
    · exact ih hkept.2 hmem

theorem Stmt.tame_of_mem {statements : List Stmt} (htame : Stmt.tameEach statements)
    {statement : Stmt} (hmem : statement ∈ statements) : statement.tame := by
  induction statements with
  | nil => cases hmem
  | cons first rest ih =>
    simp only [Stmt.tameEach, Bool.and_eq_true] at htame
    rcases List.mem_cons.mp hmem with rfl | hmem
    · exact htame.1
    · exact ih htame.2 hmem

theorem Stmt.handsOnIn_of_mem {statements : List Stmt} {statement : Stmt}
    (hmem : statement ∈ statements) (hhands : statement.handsOn) : Stmt.handsOnIn statements := by
  induction statements with
  | nil => cases hmem
  | cons first rest ih =>
    rw [Stmt.handsOnIn, Bool.or_eq_true]
    rcases List.mem_cons.mp hmem with rfl | hmem
    · exact .inl hhands
    · exact .inr (ih hmem)

/-! ### Settled values -/

namespace Value

def isReturned : Value → Bool
  | .returned _ => true
  | _ => false

/-- Not a wrapped value. -/
abbrev IsUnwrapped (value : Value) : Prop :=
  value.isReturned = false

/-- Neither a wrapped value nor a function whose body would let one out. -/
def IsSettled : Value → Prop
  | .returned _ => False
  | .function closure => closure.body.tame
  | _ => True

/-- Settled throughout, or the wrapper of such a value where one may be handed on. -/
def Fits (handsOn : Bool) (value : Value) : Prop :=
  value.All IsSettled ∨ (handsOn ∧ ∃ inner, value = .returned inner ∧ inner.All IsSettled)

theorem isUnwrapped_of_isSettled (value : Value) (hsettled : value.IsSettled) :
    value.IsUnwrapped := by
  cases value with
  | returned inner => exact hsettled.elim
  | integer | string | boolean | null | function | array | hash | builtin | error => rfl

theorem isSettled_of_isPlain (value : Value) (hplain : value.isPlain) : value.IsSettled := by
  cases value with
  | returned | function => cases hplain
  | integer | string | boolean | null | array | hash | builtin | error => trivial

theorem settled_of_isPlain {value : Value} (hplain : value.isPlain) : value.All IsSettled :=
  all_of_isPlain hplain (isSettled_of_isPlain value hplain)

theorem fits_of_isPlain {handsOn : Bool} {value : Value} (hplain : value.isPlain) :
    value.Fits handsOn :=
  .inl (settled_of_isPlain hplain)

theorem fits_false_iff {value : Value} : value.Fits false ↔ value.All IsSettled := by
  simp [Fits]

theorem Fits.mono {handsOn handsOn' : Bool} {value : Value} (h : value.Fits handsOn)
    (hle : handsOn → handsOn') : value.Fits handsOn' :=
  h.imp_right fun hwrapped ↦ ⟨hle hwrapped.1, hwrapped.2⟩

theorem settled_array_iff {elements : List Value} :
    (array elements).All IsSettled ↔ ∀ element ∈ elements, element.All IsSettled := by
  rw [all_array_iff]
  exact and_iff_right trivial

theorem settled_hash {pairs : List (Key × Value)}
    (hpairs : ∀ pair ∈ pairs, pair.2.All IsSettled) : (hash pairs).All IsSettled := by
  refine all_hash_iff.mpr ⟨trivial, fun pair hmem ↦ ⟨?_, hpairs pair hmem⟩⟩
  exact isSettled_of_isPlain _ (isPlain_toValue pair.1)

/-- The call that a result ends takes the wrapper off. -/
theorem settled_callResult {handsOn : Bool} {result : Option Value}
    (hresult : ∀ value ∈ result, value.Fits handsOn) :
    (Evaluation.callResult result).All IsSettled := by
  cases result with
  | none => exact settled_of_isPlain rfl
  | some value =>
    rcases hresult value rfl with hsettled | ⟨-, inner, rfl, hinner⟩
    · unfold Evaluation.callResult
      split
      · rename_i heq
        obtain rfl := Option.some.inj heq
        exact hsettled.self.elim
      · exact hsettled
    · exact hinner

/-- Indexing makes an error of a wrapped value. -/
theorem settled_index {handsOn : Bool} {left : Value} (hleft : left.Fits handsOn) (place : Value) :
    (index left place).All IsSettled := by
  rcases hleft with hsettled | ⟨-, inner, rfl, -⟩
  · exact all_index isSettled_of_isPlain hsettled place
  · exact settled_of_isPlain rfl

theorem fits_orNull {handsOn : Bool} {result : Option Value}
    (hresult : ∀ value ∈ result, value.Fits handsOn) : (Evaluation.orNull result).Fits handsOn := by
  cases result with
  | none => exact fits_of_isPlain rfl
  | some value => exact hresult value rfl

end Value

/-! ### The evaluator -/

namespace Evaluation

open Run Value

/-- The bindings of every frame are settled throughout. -/
abbrev Settled : Scopes → Prop :=
  Scopes.AllBindings (Value.All IsSettled)

/-- What the evaluating functions give for tame trees when `depth` nested steps are allowed. -/
structure SettledAt (settings : Settings) (depth : Nat) : Prop where
  evaluate : ∀ {frame : FrameId} {expression : Expr}, expression.tame →
    (evaluate settings depth expression frame).Ensures Settled (Fits expression.handsOn)
  evaluateEach : ∀ {frame : FrameId} {expressions : List Expr}, Expr.keptEach expressions →
    (evaluateEach settings depth expressions frame).Ensures Settled fun result ↦
      ∀ found, result = .ok found → ∀ value ∈ found, value.All IsSettled
  hashLiteral : ∀ {frame : FrameId} {pairs : List (Expr × Expr)}, Expr.keptPairs pairs →
    (hashLiteral settings depth pairs frame).Ensures Settled (Value.All IsSettled)
  conditional : ∀ {frame : FrameId} {condition : Expr} {consequence : Block}
      {alternative : Option Block} {handsOn : Bool}, condition.tame → consequence.tame →
    (∀ block ∈ alternative, block.tame) → (consequence.handsOn → handsOn) →
      (∀ block ∈ alternative, block.handsOn → handsOn) →
        (conditional settings depth condition consequence alternative frame).Ensures Settled
          (Fits handsOn)
  call : ∀ {frame : FrameId} {callee : Expr} {arguments : List Expr}, callee.tame →
    Expr.keptEach arguments →
      (call settings depth callee arguments frame).Ensures Settled (Value.All IsSettled)
  execute : ∀ {frame : FrameId} {statement : Stmt}, statement.tame →
    (execute settings depth statement frame).Ensures Settled fun result ↦
      ∀ value ∈ result, value.Fits statement.handsOn
  executeEach : ∀ {frame : FrameId} {statements : List Stmt}, Stmt.tameEach statements →
    (executeEach settings depth statements frame).Ensures Settled fun result ↦
      ∀ value ∈ result, value.Fits (Stmt.handsOnIn statements)

variable {settings : Settings} {depth : Nat}

theorem settledAt_zero : SettledAt settings 0 := by
  constructor
  all_goals
    intros
    simp only [evaluate, evaluateEach, hashLiteral, conditional, call, execute, executeEach]
    exact ensures_halt _

namespace SettledAt

variable {frame : FrameId}

/-- An expression in a place where its value is kept. -/
theorem evaluate_kept (h : SettledAt settings depth) {expression : Expr}
    (htame : expression.tame) (hkept : expression.handsOn = false) :
    (Evaluation.evaluate settings depth expression frame).Ensures Settled
      (Value.All IsSettled) := by
  have hevaluate : (Evaluation.evaluate settings depth expression frame).Ensures Settled
      (Fits expression.handsOn) :=
    h.evaluate htame
  rw [hkept] at hevaluate
  exact hevaluate.mono fun _ ↦ fits_false_iff.mp

theorem identifier_settled (name : String) :
    (identifier settings name frame).Ensures Settled (Value.All IsSettled) := by
  have hget : (getVariable frame name).Ensures Settled fun found ↦
      ∀ value ∈ found, value.All IsSettled :=
    ensures_getVariable fun scopes hscopes value hvalue ↦ hscopes.get? hvalue
  rw [identifier]
  refine .bind hget fun found hfound ↦ ?_
  cases found with
  | some value => exact ensures_pure (hfound value rfl)
  | none =>
    dsimp only
    split
    · exact ensures_pure (settled_of_isPlain rfl)
    · exact ensures_pure (settled_of_isPlain rfl)

theorem evaluate_succ (h : SettledAt settings depth) {expression : Expr}
    (htame : expression.tame) :
    (Evaluation.evaluate settings (depth + 1) expression frame).Ensures Settled
      (Fits expression.handsOn) := by
  have hplain {value : Value} {handsOn : Bool} (hvalue : value.isPlain) :
      (pure value : Run Value).Ensures Settled (Fits handsOn) :=
    ensures_pure (fits_of_isPlain hvalue)
  have herror {handsOn : Bool} (failure : Failure) : Fits handsOn (.error failure) :=
    fits_of_isPlain rfl
  cases expression with
  | integer | string | boolean =>
    rw [Evaluation.evaluate]
    exact hplain rfl
  | identifier name =>
    rw [Evaluation.evaluate]
    exact (identifier_settled name.value).mono fun _ ↦ .inl
  | function origin parameters body =>
    rw [Expr.tame] at htame
    rw [Evaluation.evaluate]
    exact ensures_makeFunction fun _ ↦ .inl (all_function_iff.mpr htame)
  | unary origin operator right =>
    rw [Expr.tame] at htame
    rw [Evaluation.evaluate]
    exact .andThen (h.evaluate htame) herror fun _ _ ↦ hplain (isPlain_unary _ _)
  | binary origin left operator right =>
    rw [Expr.tame, Bool.and_eq_true] at htame
    rw [Evaluation.evaluate]
    refine .andThen (h.evaluate htame.1) herror fun _ _ ↦ ?_
    exact .andThen (h.evaluate htame.2) herror fun _ _ ↦ hplain (isPlain_binary _ _ _)
  | index origin left place =>
    rw [Expr.tame, Bool.and_eq_true] at htame
    rw [Evaluation.evaluate]
    refine .andThen (h.evaluate htame.1) herror fun value hvalue ↦ ?_
    exact .andThen (h.evaluate htame.2) herror fun spot _ ↦
      ensures_pure (.inl (settled_index hvalue spot))
  | conditional origin condition consequence alternative =>
    rw [Evaluation.evaluate]
    cases alternative with
    | none =>
      rw [Expr.tame, Bool.and_eq_true] at htame
      rw [Expr.handsOn]
      exact h.conditional htame.1 htame.2 (by simp) id (by simp)
    | some block =>
      rw [Expr.tame, Bool.and_eq_true, Bool.and_eq_true] at htame
      rw [Expr.handsOn]
      refine h.conditional htame.1.1 htame.1.2 ?_ ?_ ?_
      · rintro other ⟨⟩
        exact htame.2
      · intro hhands
        rw [hhands, Bool.true_or]
      · rintro other ⟨⟩ hhands
        rw [hhands, Bool.or_true]
  | call origin callee arguments =>
    rw [Expr.tame, Bool.and_eq_true] at htame
    rw [Evaluation.evaluate]
    exact (h.call htame.1 htame.2).mono fun _ ↦ .inl
  | array origin elements =>
    rw [Expr.tame] at htame
    rw [Evaluation.evaluate]
    refine .bind (h.evaluateEach htame) fun result hresult ↦ ?_
    cases result with
    | error failure => exact hplain rfl
    | ok values => exact ensures_pure (.inl (settled_array_iff.mpr (hresult values rfl)))
  | hash origin pairs =>
    rw [Expr.tame] at htame
    rw [Evaluation.evaluate]
    exact (h.hashLiteral htame).mono fun _ ↦ .inl

theorem evaluateEach_succ (h : SettledAt settings depth) {expressions : List Expr}
    (hkept : Expr.keptEach expressions) :
    (Evaluation.evaluateEach settings (depth + 1) expressions frame).Ensures Settled fun result ↦
      ∀ found, result = .ok found → ∀ value ∈ found, value.All IsSettled := by
  rw [Evaluation.evaluateEach]
  refine ensures_values fun expression hmem ↦ ?_
  obtain ⟨htame, hhands⟩ := Expr.kept_of_mem hkept hmem
  exact h.evaluate_kept htame hhands

theorem hashLiteral_succ (h : SettledAt settings depth) {pairs : List (Expr × Expr)}
    (hkept : Expr.keptPairs pairs) :
    (Evaluation.hashLiteral settings (depth + 1) pairs frame).Ensures Settled
      (Value.All IsSettled) := by
  have hkeys (pair : Expr × Expr) (hmem : pair ∈ pairs) :
      (Evaluation.evaluate settings depth pair.1 frame).Ensures Settled fun _ ↦ True :=
    (h.evaluate (Expr.kept_of_mem_pairs hkept hmem).1).mono fun _ _ ↦ trivial
  have hvalues (pair : Expr × Expr) (hmem : pair ∈ pairs) :
      (Evaluation.evaluate settings depth pair.2 frame).Ensures Settled (Value.All IsSettled) :=
    h.evaluate_kept (Expr.kept_of_mem_pairs hkept hmem).2.1 (Expr.kept_of_mem_pairs hkept hmem).2.2
  rw [Evaluation.hashLiteral]
  exact ensures_hashPairs hkeys hvalues (List.forall_mem_nil _) (fun _ ↦ settled_of_isPlain rfl)
    fun _ ↦ settled_hash

/-- A block as the branch of a condition or the body of a call. -/
theorem execute_block (h : SettledAt settings depth) {block : Block} {handsOn : Bool}
    (htame : block.tame) (hhands : block.handsOn → handsOn) :
    (Evaluation.execute settings depth (.block block) frame).Ensures Settled fun result ↦
      ∀ value ∈ result, value.Fits handsOn := by
  have hstatement : (Stmt.block block).tame := by rwa [Stmt.tame]
  refine (h.execute hstatement).mono fun result hresult value hvalue ↦ ?_
  refine (hresult value hvalue).mono fun hblock ↦ hhands ?_
  rwa [Stmt.handsOn] at hblock

theorem conditional_succ (h : SettledAt settings depth) {condition : Expr} {consequence : Block}
    {alternative : Option Block} {handsOn : Bool} (hcondition : condition.tame)
    (hconsequence : consequence.tame) (halternative : ∀ block ∈ alternative, block.tame)
    (hhands : consequence.handsOn → handsOn)
    (hhands' : ∀ block ∈ alternative, block.handsOn → handsOn) :
    (Evaluation.conditional settings (depth + 1) condition consequence alternative frame).Ensures
      Settled (Fits handsOn) := by
  have herror (failure : Failure) : Fits handsOn (.error failure) := fits_of_isPlain rfl
  have hyes : (Evaluation.execute settings depth (.block consequence) frame >>= fun result ↦
      pure (orNull result)).Ensures Settled (Fits handsOn) :=
    .bind (h.execute_block hconsequence hhands) fun result hresult ↦
      ensures_pure (fits_orNull hresult)
  cases alternative with
  | none =>
    rw [Evaluation.conditional]
    refine .andThen (h.evaluate hcondition) herror fun value _ ↦ ?_
    refine .bind (ensures_note _ _ _ _) fun _ _ ↦ ?_
    split_ifs
    · exact hyes
    · exact ensures_pure (fits_of_isPlain rfl)
  | some block =>
    rw [Evaluation.conditional]
    refine .andThen (h.evaluate hcondition) herror fun value _ ↦ ?_
    refine .bind (ensures_note _ _ _ _) fun _ _ ↦ ?_
    split_ifs
    · exact hyes
    · exact .bind (h.execute_block (halternative block rfl) (hhands' block rfl))
        fun result hresult ↦ ensures_pure (fits_orNull hresult)

theorem call_succ (h : SettledAt settings depth) {callee : Expr} {arguments : List Expr}
    (hcallee : callee.tame) (hkept : Expr.keptEach arguments) :
    (Evaluation.call settings (depth + 1) callee arguments frame).Ensures Settled
      (Value.All IsSettled) := by
  have herror (failure : Failure) : (Value.error failure).All IsSettled := settled_of_isPlain rfl
  rw [Evaluation.call]
  refine .andThen (h.evaluate hcallee) herror fun value hvalue ↦ ?_
  split
  · rename_i closure
    have hbody : closure.body.tame := by
      rcases hvalue with hsettled | ⟨-, inner, heq, -⟩
      · exact all_function_iff.mp hsettled
      · cases heq
    have hopen : (openFrame closure.frame).Ensures Settled fun _ ↦ True :=
      ensures_openFrame fun scopes hscopes ↦ ⟨hscopes.newFrame _, trivial⟩
    refine .bind hopen fun inner _ ↦ ?_
    have harguments (argument : Expr) (hmem : argument ∈ arguments) :
        (Evaluation.evaluate settings depth argument frame).Ensures Settled
          (Value.All IsSettled) :=
      h.evaluate_kept (Expr.kept_of_mem hkept hmem).1 (Expr.kept_of_mem hkept hmem).2
    refine .bind (ensures_bindArguments harguments fun name value scopes hvalue hscopes ↦
      hscopes.set inner name hvalue) fun found _ ↦ ?_
    cases found with
    | some failure => exact ensures_pure (herror failure)
    | none =>
      refine .bind (ensures_note _ _ _ _) fun _ _ ↦ ?_
      exact .bind (h.execute_block hbody id) fun result hresult ↦
        ensures_pure (settled_callResult hresult)
  · refine .bind (h.evaluateEach hkept) fun result hresult ↦ ?_
    cases result with
    | error failure => exact ensures_pure (herror failure)
    | ok values =>
      refine .bind (ensures_note _ _ _ _) fun _ _ ↦ ?_
      exact Builtin.ensures_call _ (hresult values rfl) (fun _ _ ↦ settled_of_isPlain rfl)
        (settled_of_isPlain rfl) herror fun _ ↦ settled_array_iff
  · exact ensures_pure (herror _)

theorem execute_succ (h : SettledAt settings depth) {statement : Stmt} (htame : statement.tame) :
    (Evaluation.execute settings (depth + 1) statement frame).Ensures Settled fun result ↦
      ∀ value ∈ result, value.Fits statement.handsOn := by
  cases statement with
  | expression origin expression =>
    rw [Stmt.tame] at htame
    rw [Evaluation.execute, Stmt.handsOn]
    refine .bind (h.evaluate htame) fun value hvalue ↦ ensures_pure ?_
    rintro other ⟨⟩
    exact hvalue
  | block block =>
    obtain ⟨origin, statements⟩ := block
    rw [Stmt.tame, Block.tame] at htame
    rw [Evaluation.execute, Stmt.handsOn, Block.handsOn]
    exact h.executeEach htame
  | returning origin expression =>
    rw [Stmt.tame, Bool.and_eq_true, Bool.not_eq_true'] at htame
    rw [Evaluation.execute, Stmt.handsOn]
    refine .bind (h.evaluate_kept htame.1 htame.2) fun value hvalue ↦ ?_
    split
    · refine ensures_pure ?_
      rintro other ⟨⟩
      exact fits_of_isPlain rfl
    · refine ensures_pure ?_
      rintro other ⟨⟩
      exact .inr ⟨rfl, value, rfl, hvalue⟩
  | binding origin name expression =>
    rw [Stmt.tame, Bool.and_eq_true, Bool.not_eq_true'] at htame
    rw [Evaluation.execute, Stmt.handsOn]
    refine .bind (h.evaluate_kept htame.1 htame.2) fun value hvalue ↦ ?_
    split
    · refine ensures_pure ?_
      rintro other ⟨⟩
      exact fits_of_isPlain rfl
    · refine .bind (ensures_setVariable fun scopes hscopes ↦ ?_) fun _ _ ↦ ?_
      · exact hscopes.set frame name.value hvalue
      · exact .bind (ensures_note _ _ _ _) fun _ _ ↦ ensures_pure (by simp)

theorem executeEach_succ (h : SettledAt settings depth) {statements : List Stmt}
    (htame : Stmt.tameEach statements) :
    (Evaluation.executeEach settings (depth + 1) statements frame).Ensures Settled fun result ↦
      ∀ value ∈ result, value.Fits (Stmt.handsOnIn statements) := by
  rw [Evaluation.executeEach]
  refine ensures_runEach (fun statement hmem ↦ ?_) (by simp)
  refine (h.execute (Stmt.tame_of_mem htame hmem)).mono fun result hresult value hvalue ↦ ?_
  exact (hresult value hvalue).mono (Stmt.handsOnIn_of_mem hmem)

theorem succ (h : SettledAt settings depth) : SettledAt settings (depth + 1) where
  evaluate := h.evaluate_succ
  evaluateEach := h.evaluateEach_succ
  hashLiteral := h.hashLiteral_succ
  conditional := h.conditional_succ
  call := h.call_succ
  execute := h.execute_succ
  executeEach := h.executeEach_succ

end SettledAt

theorem settledAt (settings : Settings) (depth : Nat) : SettledAt settings depth := by
  induction depth with
  | zero => exact settledAt_zero
  | succ depth ih => exact ih.succ

/-- A returned value ends the program and is taken out of its wrapper. -/
theorem programResult_settled {settings : Settings} {frame : FrameId} {program : Program}
    (htame : program.tame) :
    (programResult settings frame none program.statements).Ensures Settled fun result ↦
      ∀ value ∈ result, value.All IsSettled := by
  have hstatements (statement : Stmt) (hmem : statement ∈ program.statements) :
      (execute settings settings.depthLimit statement frame).Ensures Settled fun result ↦
        ∀ value ∈ result, value.Fits true :=
    ((settledAt settings _).execute (Stmt.tame_of_mem htame hmem)).mono
      fun result hresult value hvalue ↦ (hresult value hvalue).mono fun _ ↦ rfl
  refine ensures_programResult hstatements ?_ ?_ (by simp)
  · rintro value hfits inner ⟨⟩
    rcases hfits _ rfl with hsettled | ⟨-, inner, heq, hinner⟩
    · exact hsettled.self.elim
    · obtain rfl := Value.returned.inj heq
      exact hinner
  · intro result hfits hne value hvalue
    rcases hfits value hvalue with hsettled | ⟨-, inner, rfl, -⟩
    · exact hsettled
    · exact absurd hvalue (hne inner)

end Evaluation

/-! ### Sessions -/

open Value

/-- After each of the texts, run one after the other, neither its result nor a binding of any frame
is or holds a wrapped value. -/
def Session.KeepsReturnsInside (settings : Settings) (sources : List String) : Prop :=
  ∀ outcome ∈ outcomes settings sources Machine.start,
    outcome.Satisfies (Scopes.AllBindings (Value.All IsUnwrapped)) fun result ↦
      ∀ value ∈ result.2, value.All IsUnwrapped

instance (settings : Settings) (sources : List String) :
    Decidable (Session.KeepsReturnsInside settings sources) :=
  inferInstanceAs (Decidable (∀ outcome ∈ Session.outcomes settings sources Machine.start,
    outcome.Satisfies (Scopes.AllBindings (Value.All IsUnwrapped)) fun result ↦
      ∀ value ∈ result.2, value.All IsUnwrapped))

/-- Texts whose trees are tame let no wrapped value out. -/
theorem returned_values_stay_inside (settings : Settings) (sources : List String)
    (htame : ∀ source ∈ sources, (Program.ofSource source).program.tame) :
    Session.KeepsReturnsInside settings sources := by
  have hunwrapped (value : Value) (hvalue : value.All IsSettled) : value.All IsUnwrapped :=
    hvalue.mono isUnwrapped_of_isSettled
  have hsources (source : String) (hmem : source ∈ sources) :
      (runSource settings source topFrame).Ensures Evaluation.Settled fun result ↦
        ∀ value ∈ result.2, value.All IsSettled := by
    have hrun : ((Program.ofSource source).program.run settings topFrame).Ensures
        Evaluation.Settled fun result ↦ ∀ value ∈ result, value.All IsSettled := by
      refine Program.ensures_run (Evaluation.programResult_settled (htame source hmem)) ?_
      rintro value ⟨⟩
      exact settled_of_isPlain rfl
    exact ensures_runSource hrun (by simp)
  have hempty : Evaluation.Settled {} := fun frame hframe ↦ absurd hframe (Array.not_mem_empty _)
  have hstart : Evaluation.Settled Machine.start.scopes := hempty.newFrame none
  intro outcome houtcome
  refine (Session.outcomes_satisfy hsources hstart outcome houtcome).mono ?_ ?_
  · exact fun scopes hscopes ↦ hscopes.mono hunwrapped
  · exact fun result hresult value hvalue ↦ hunwrapped value (hresult value hvalue)

/-- Returns that only statements and operators meet. -/
theorem returned_values_stay_inside_of_statements :
    Session.KeepsReturnsInside {} ["let f = fn(x) \x7b if (x) \x7b return 1 \x7d; [2] \x7d;",
      "f(true) == if (f(false)[0] < 3) \x7b return 4 \x7d"] :=
  returned_values_stay_inside _ _ (by decide +kernel)

/-- Each of the places where a value is kept lets a wrapped one out: a `let` statement, a `return`
statement, an argument, an element of an array and a value of a hash. -/
theorem returned_value_escapes_from_kept_places :
    ((Program.ofSource "let a = if (true) \x7b return 1 \x7d;").problems = [] ∧
        ¬ Session.KeepsReturnsInside {} ["let a = if (true) \x7b return 1 \x7d;"]) ∧
      ((Program.ofSource "return if (true) \x7b return 1 \x7d;").problems = [] ∧
        ¬ Session.KeepsReturnsInside {} ["return if (true) \x7b return 1 \x7d;"]) ∧
      ((Program.ofSource "push([], if (true) \x7b return 1 \x7d)").problems = [] ∧
        ¬ Session.KeepsReturnsInside {} ["push([], if (true) \x7b return 1 \x7d)"]) ∧
      ((Program.ofSource "[if (true) \x7b return 1 \x7d]").problems = [] ∧
        ¬ Session.KeepsReturnsInside {} ["[if (true) \x7b return 1 \x7d]"]) ∧
      (Program.ofSource "\x7b1: if (true) \x7b return 1 \x7d\x7d").problems = [] ∧
        ¬ Session.KeepsReturnsInside {} ["\x7b1: if (true) \x7b return 1 \x7d\x7d"] := by
  decide +kernel

end MonkeyLang
