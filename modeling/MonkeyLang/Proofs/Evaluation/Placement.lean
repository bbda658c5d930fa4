import Mathlib.Tactic
import MonkeyLang.Proofs.Evaluation.Contents

/-!
# Where returns stand

A tree is *placed* if every condition in which a return statement occurs is all of an expression
statement. The returns of a function's body count for the body only. In a placed tree an expression
inside another one has no return statement of its own, so that a return only ever has statements
around it on its way out.

Placed values are the ones that no exit is passed up as: neither wrapped values nor errors, with
nothing but placed bodies in the functions that they hold.
-/

set_option autoImplicit false

namespace MonkeyLang

/-! ### Placed trees -/

mutual

/-- Whether a return statement occurs, other than in the body of a function. -/
def Expr.hasReturn : Expr → Bool
  | .identifier _ | .integer _ _ | .boolean _ _ | .string _ _ | .function _ _ _ => false
  | .unary _ _ right => right.hasReturn
  | .binary _ left _ right => left.hasReturn || right.hasReturn
  | .conditional _ condition consequence none => condition.hasReturn || consequence.hasReturn
  | .conditional _ condition consequence (some alternative) =>
    condition.hasReturn || consequence.hasReturn || alternative.hasReturn
  | .call _ callee arguments => callee.hasReturn || Expr.hasReturnIn arguments
  | .array _ elements => Expr.hasReturnIn elements
  | .index _ left place => left.hasReturn || place.hasReturn
  | .hash _ pairs => Expr.hasReturnInPairs pairs

def Expr.hasReturnIn : List Expr → Bool
  | [] => false
  | expression :: rest => expression.hasReturn || Expr.hasReturnIn rest

def Expr.hasReturnInPairs : List (Expr × Expr) → Bool
  | [] => false
  | (key, value) :: rest => key.hasReturn || value.hasReturn || Expr.hasReturnInPairs rest

def Stmt.hasReturn : Stmt → Bool
  | .binding _ _ value => value.hasReturn
  | .returning _ _ => true
  | .expression _ tree => tree.hasReturn
  | .block body => body.hasReturn

def Stmt.hasReturnIn : List Stmt → Bool
  | [] => false
  | statement :: rest => statement.hasReturn || Stmt.hasReturnIn rest

def Block.hasReturn : Block → Bool
  | .mk _ statements => Stmt.hasReturnIn statements

end

mutual

/-- Whether every condition in which a return statement occurs is all of an expression statement;
`whole` says whether the expression itself is. -/
def Expr.placed : (whole : Bool) → Expr → Bool
  | _, .identifier _ | _, .integer _ _ | _, .boolean _ _ | _, .string _ _ => true
  | _, .function _ _ body => body.placed
  | _, .unary _ _ right => right.placed false
  | _, .binary _ left _ right => left.placed false && right.placed false
  | whole, .conditional _ condition consequence none =>
    (whole || !(condition.hasReturn || consequence.hasReturn)) && condition.placed false &&
      consequence.placed
  | whole, .conditional _ condition consequence (some alternative) =>
    (whole || !(condition.hasReturn || consequence.hasReturn || alternative.hasReturn)) &&
      condition.placed false && consequence.placed && alternative.placed
  | _, .call _ callee arguments => callee.placed false && Expr.placedEach arguments
  | _, .array _ elements => Expr.placedEach elements
  | _, .index _ left place => left.placed false && place.placed false
  | _, .hash _ pairs => Expr.placedPairs pairs

def Expr.placedEach : List Expr → Bool
  | [] => true
  | expression :: rest => expression.placed false && Expr.placedEach rest

def Expr.placedPairs : List (Expr × Expr) → Bool
  | [] => true
  | (key, value) :: rest => key.placed false && value.placed false && Expr.placedPairs rest

def Stmt.placed : Stmt → Bool
  | .binding _ _ value => value.placed false
  | .returning _ value => value.placed false
  | .expression _ tree => tree.placed true
  | .block body => body.placed

def Stmt.placedEach : List Stmt → Bool
  | [] => true
  | statement :: rest => statement.placed && Stmt.placedEach rest

def Block.placed : Block → Bool
  | .mk _ statements => Stmt.placedEach statements

end

def Program.placed (program : Program) : Bool :=
  Stmt.placedEach program.statements

theorem Expr.placed_of_mem {expressions : List Expr} (hplaced : Expr.placedEach expressions)
    {expression : Expr} (hmem : expression ∈ expressions) : expression.placed false := by
  induction expressions with
  | nil => cases hmem
  | cons first rest ih =>
    simp only [Expr.placedEach, Bool.and_eq_true] at hplaced
    rcases List.mem_cons.mp hmem with rfl | hmem
    · exact hplaced.1
    · exact ih hplaced.2 hmem

theorem Expr.placed_of_mem_pairs {pairs : List (Expr × Expr)} (hplaced : Expr.placedPairs pairs)
    {pair : Expr × Expr} (hmem : pair ∈ pairs) : pair.1.placed false ∧ pair.2.placed false := by
  induction pairs with
  | nil => cases hmem
  | cons first rest ih =>
    obtain ⟨key, value⟩ := first
    simp only [Expr.placedPairs, Bool.and_eq_true] at hplaced
    rcases List.mem_cons.mp hmem with rfl | hmem
    · exact hplaced.1
    · exact ih hplaced.2 hmem

theorem Stmt.placed_of_mem {statements : List Stmt} (hplaced : Stmt.placedEach statements)
    {statement : Stmt} (hmem : statement ∈ statements) : statement.placed := by
  induction statements with
  | nil => cases hmem
  | cons first rest ih =>
    simp only [Stmt.placedEach, Bool.and_eq_true] at hplaced
    rcases List.mem_cons.mp hmem with rfl | hmem
    · exact hplaced.1
    · exact ih hplaced.2 hmem

theorem Stmt.hasReturnIn_of_mem {statements : List Stmt} {statement : Stmt}
    (hmem : statement ∈ statements) (hreturn : statement.hasReturn) :
    Stmt.hasReturnIn statements := by
  induction statements with
  | nil => cases hmem
  | cons first rest ih =>
    rw [Stmt.hasReturnIn, Bool.or_eq_true]
    rcases List.mem_cons.mp hmem with rfl | hmem
    · exact .inl hreturn
    · exact .inr (ih hmem)

mutual

/-- An expression inside another one has no return statement that could leave it. -/
theorem Expr.hasReturn_eq_false : (tree : Expr) → tree.placed false → tree.hasReturn = false
  | .identifier _, _ | .integer _ _, _ | .boolean _ _, _ | .string _ _, _
  | .function _ _ _, _ => by rw [Expr.hasReturn]
  | .unary _ _ right, h => by
    rw [Expr.placed] at h
    rw [Expr.hasReturn, right.hasReturn_eq_false h]
  | .binary _ left _ right, h => by
    rw [Expr.placed, Bool.and_eq_true] at h
    rw [Expr.hasReturn, left.hasReturn_eq_false h.1, right.hasReturn_eq_false h.2, Bool.or_false]
  | .conditional _ condition consequence none, h => by
    simp only [Expr.placed, Bool.false_or, Bool.and_eq_true, Bool.not_eq_true'] at h
    rw [Expr.hasReturn, h.1.1]
  | .conditional _ condition consequence (some alternative), h => by
    simp only [Expr.placed, Bool.false_or, Bool.and_eq_true, Bool.not_eq_true'] at h
    rw [Expr.hasReturn, h.1.1.1]
  | .call _ callee arguments, h => by
    rw [Expr.placed, Bool.and_eq_true] at h
    rw [Expr.hasReturn, callee.hasReturn_eq_false h.1, Expr.hasReturnIn_eq_false arguments h.2,
      Bool.or_false]
  | .array _ elements, h => by
    rw [Expr.placed] at h
    rw [Expr.hasReturn, Expr.hasReturnIn_eq_false elements h]
  | .index _ left place, h => by
    rw [Expr.placed, Bool.and_eq_true] at h
    rw [Expr.hasReturn, left.hasReturn_eq_false h.1, place.hasReturn_eq_false h.2, Bool.or_false]
  | .hash _ pairs, h => by
    rw [Expr.placed] at h
    rw [Expr.hasReturn, Expr.hasReturnInPairs_eq_false pairs h]

theorem Expr.hasReturnIn_eq_false : (trees : List Expr) → Expr.placedEach trees →
    Expr.hasReturnIn trees = false
  | [], _ => by rw [Expr.hasReturnIn]
  | tree :: rest, h => by
    rw [Expr.placedEach, Bool.and_eq_true] at h
    rw [Expr.hasReturnIn, tree.hasReturn_eq_false h.1, Expr.hasReturnIn_eq_false rest h.2,
      Bool.or_false]

theorem Expr.hasReturnInPairs_eq_false : (pairs : List (Expr × Expr)) → Expr.placedPairs pairs →
    Expr.hasReturnInPairs pairs = false
  | [], _ => by rw [Expr.hasReturnInPairs]
  | (key, value) :: rest, h => by
    rw [Expr.placedPairs, Bool.and_eq_true, Bool.and_eq_true] at h
    rw [Expr.hasReturnInPairs, key.hasReturn_eq_false h.1.1, value.hasReturn_eq_false h.1.2,
      Expr.hasReturnInPairs_eq_false rest h.2, Bool.or_false, Bool.or_false]

end

/-! ### Placed values -/

namespace Value

/-- Neither a wrapped value nor an error, nor a function whose body is out of place. -/
def IsPlaced : Value → Prop
  | .returned _ | .error _ => False
  | .function closure => closure.body.placed
  | _ => True

theorem isPlaced_toValue (key : Key) : key.toValue.IsPlaced := by
  cases key <;> trivial

theorem placed_array_iff {elements : List Value} :
    (array elements).All IsPlaced ↔ ∀ element ∈ elements, element.All IsPlaced := by
  rw [all_array_iff]
  exact and_iff_right trivial

theorem placed_hash {pairs : List (Key × Value)}
    (hpairs : ∀ pair ∈ pairs, pair.2.All IsPlaced) : (hash pairs).All IsPlaced :=
  all_hash_iff.mpr ⟨trivial, fun pair hmem ↦ ⟨isPlaced_toValue pair.1, hpairs pair hmem⟩⟩

/-- What operators make is placed, unless it is an error. -/
theorem placed_or_error_of_isPlain {value : Value} (hplain : value.isPlain) :
    value.All IsPlaced ∨ ∃ failure, value = .error failure := by
  cases value with
  | error failure => exact .inr ⟨failure, rfl⟩
  | integer | string | boolean | null | builtin => exact .inl (all_of_isPlain rfl trivial)
  | returned | function | array | hash => cases hplain

end Value

/-- The bindings of every frame are placed throughout. -/
abbrev Placed : Scopes → Prop :=
  Scopes.AllBindings (Value.All Value.IsPlaced)

end MonkeyLang
