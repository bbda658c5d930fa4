import Mathlib.Tactic
import MonkeyLang.Proofs.Evaluation.Integers

/-!
# Arithmetic is exact or reports an error

The operators on integers of 64 bits give the result that they have in the integers, and where that
does not fit, the overflow error that shows it. Division rounds toward zero. Its quotient fits but
for one case, the lowest integer divided by -1; it is paired with a remainder that is smaller than
the divisor and has the sign of the dividend.

That remainder can be computed by a program, as `x - (x / y) * y`: the product in it lies between
zero and the dividend (`isInt64_between`), so that nothing overflows on the way, also at the lowest
integer.
-/

set_option autoImplicit false

namespace MonkeyLang

/-! ### Integers that fit -/

/-- What lies between zero and an integer that fits, fits. -/
theorem isInt64_between {a n : Int} (ha : IsInt64 a)
    (hbetween : (0 ≤ n ∧ n ≤ a) ∨ (a ≤ n ∧ n ≤ 0)) : IsInt64 n := by
  obtain ⟨hmin, hmax⟩ := ha
  rw [int64Min] at hmin
  rw [int64Max] at hmax
  rw [IsInt64, int64Min, int64Max]
  omega

/-- A quotient by two or more is half as large at most, so only the one by -1 can be too large. -/
theorem isInt64_tdiv_iff {a b : Int} (ha : IsInt64 a) (hb : b ≠ 0) :
    IsInt64 (a.tdiv b) ↔ ¬(a = int64Min ∧ b = -1) := by
  have hlowest : ¬IsInt64 (int64Min.tdiv (-1)) := by decide
  constructor
  · rintro hfits ⟨rfl, rfl⟩
    exact hlowest hfits
  · intro hnot
    by_cases hunit : b.natAbs = 1
    · rcases Int.natAbs_eq_iff.mp hunit with rfl | rfl
      · rwa [Nat.cast_one, Int.tdiv_one]
      · have hne : a ≠ int64Min := fun heq ↦ hnot ⟨heq, rfl⟩
        rw [Nat.cast_one, Int.tdiv_neg, Int.tdiv_one]
        rw [IsInt64, int64Min, int64Max] at *
        omega
    · have hhalf : a.natAbs / b.natAbs ≤ a.natAbs / 2 :=
        Nat.div_le_div_left (by omega) (by decide)
      have hquotient : (a.tdiv b).natAbs = a.natAbs / b.natAbs := Int.natAbs_tdiv a b
      rw [IsInt64, int64Min, int64Max] at *
      omega

/-! ### Quotient and remainder -/

/-- The quotient of the absolute values, with the sign that the signs give, is the one that is
rounded toward zero. -/
theorem quotient?_eq_tdiv {b : Int} (a : Int) (hb : b ≠ 0) : quotient? a b = some (a.tdiv b) := by
  rw [quotient?, if_neg hb]
  refine congrArg some ?_
  -- A dividend of zero has no sign, and is a case of its own among the negated ones.
  obtain ⟨m, rfl | rfl⟩ := a.eq_nat_or_neg <;> obtain ⟨n, rfl | rfl⟩ := b.eq_nat_or_neg
  · rw [if_pos (by omega)]
    rfl
  · rw [if_neg (by omega), Int.tdiv_neg, Int.natAbs_neg]
    rfl
  · rcases Nat.eq_zero_or_pos m with rfl | hpos
    · simp
    · rw [if_neg (by omega), Int.neg_tdiv, Int.natAbs_neg]
      rfl
  · rcases Nat.eq_zero_or_pos m with rfl | hpos
    · simp
    · rw [if_pos (by omega), Int.neg_tdiv_neg, Int.natAbs_neg, Int.natAbs_neg]
      rfl

/-- Division of `a` by `b` that rounds toward zero, with its remainder. -/
structure IsTruncatedDivision (a b quotient remainder : Int) : Prop where
  sum : a = b * quotient + remainder
  small : |remainder| < |b|
  sign : remainder = 0 ∨ remainder.sign = a.sign

theorem isTruncatedDivision_tdiv (a : Int) {b : Int} (hb : b ≠ 0) :
    IsTruncatedDivision a b (a.tdiv b) (a.tmod b) where
  sum := (Int.mul_tdiv_add_tmod a b).symm
  small := by
    rw [← Int.natCast_natAbs, ← Int.natCast_natAbs, Int.natAbs_tmod, Nat.cast_lt]
    exact Nat.mod_lt _ (Int.natAbs_pos.mpr hb)
  sign := by
    have hsign := Int.sign_tmod a b
    split_ifs at hsign with hdvd
    · exact .inl (Int.sign_eq_zero_iff_zero.mp hsign)
    · exact .inr hsign

theorem tmod_between (a b : Int) :
    (0 ≤ a.tmod b ∧ a.tmod b ≤ a) ∨ (a ≤ a.tmod b ∧ a.tmod b ≤ 0) := by
  have hle : (a.tmod b).natAbs ≤ a.natAbs := by
    rw [Int.natAbs_tmod]
    exact Nat.mod_le _ _
  rcases le_total 0 a with hnonneg | hnonpos
  · have hremainder := Int.tmod_nonneg b hnonneg
    omega
  · have hremainder := Int.tmod_nonneg b (Int.neg_nonneg_of_nonpos hnonpos)
    rw [Int.neg_tmod] at hremainder
    omega

theorem tdiv_mul_between (a b : Int) :
    (0 ≤ a.tdiv b * b ∧ a.tdiv b * b ≤ a) ∨ (a ≤ a.tdiv b * b ∧ a.tdiv b * b ≤ 0) := by
  have hsum := Int.mul_tdiv_add_tmod a b
  have hremainder := tmod_between a b
  rw [Int.mul_comm] at hsum
  omega

/-! ### Operators -/

namespace Value

/-- The exact result if it fits, and else the error that shows it. -/
def IsExact (exact : Int) (value : Value) : Prop :=
  (IsInt64 exact → value = .integer exact) ∧
    (¬IsInt64 exact → value = .error ⟨.integerOverflow, toString exact⟩)

theorem ofInt_isExact (n : Int) : (ofInt n).IsExact n := by
  have hiff : n < int64Min ∨ int64Max < n ↔ ¬IsInt64 n := by
    rw [IsInt64, not_and_or, not_le, not_le]
  refine ⟨fun hfits ↦ ?_, fun hnot ↦ ?_⟩
  · rw [ofInt, if_neg (hiff.not.mpr (not_not.mpr hfits))]
  · rw [ofInt, if_pos (hiff.mpr hnot)]

theorem binary_divide_zero (a : Int) :
    binary "/" (.integer a) (.integer 0) = .error ⟨.divisionByZero, ""⟩ :=
  rfl

theorem binary_divide {b : Int} (a : Int) (hb : b ≠ 0) :
    binary "/" (.integer a) (.integer b) = ofInt (a.tdiv b) := by
  simp only [binary, integerBinary, quotient?_eq_tdiv a hb]

/-- The kind of the error that a value is. -/
def failureKind? (value : Value) : Option Failure.Kind :=
  value.failure?.map (·.kind)

theorem failureKind?_ofInt (n : Int) :
    (ofInt n).failureKind? = if IsInt64 n then none else some .integerOverflow := by
  obtain ⟨hfits, hnot⟩ := ofInt_isExact n
  split_ifs with hn
  · rw [hfits hn]
    rfl
  · rw [hnot hn]
    rfl

theorem divide_eq_divisionByZero_iff {a b : Int} :
    (binary "/" (.integer a) (.integer b)).failureKind? = some .divisionByZero ↔ b = 0 := by
  by_cases hb : b = 0
  · subst hb
    exact iff_of_true rfl rfl
  · rw [binary_divide a hb, failureKind?_ofInt]
    refine iff_of_false ?_ hb
    split_ifs <;> simp

theorem divide_eq_integerOverflow_iff {a b : Int} (ha : IsInt64 a) :
    (binary "/" (.integer a) (.integer b)).failureKind? = some .integerOverflow ↔
      a = int64Min ∧ b = -1 := by
  by_cases hb : b = 0
  · subst hb
    refine iff_of_false ?_ (by simp)
    rw [binary_divide_zero]
    nofun
  · rw [binary_divide a hb, failureKind?_ofInt, ← not_iff_not, ← isInt64_tdiv_iff ha hb]
    split_ifs with hfits <;> simp [hfits]

end Value

/-! ### The remainder in a program -/

open Evaluation

/-- The expression has the value of the integer and changes nothing, as a literal or a name that is
bound to it does. -/
def Expr.StandsFor (settings : Settings) (frame : FrameId) (machine : Machine) (n : Int)
    (expression : Expr) : Prop :=
  ∀ depth, evaluate settings (depth + 1) expression frame machine = .done (.integer n) machine

section

variable {settings : Settings} {frame : FrameId} {machine : Machine}

theorem Expr.standsFor_identifier {name : Identifier} {n : Int}
    (hget : machine.scopes.get? frame name.value = some (.integer n)) :
    (Expr.identifier name).StandsFor settings frame machine n := by
  intro depth
  have hrun : Run.getVariable frame name.value machine = .done (some (.integer n)) machine := by
    rw [Run.getVariable, hget]
  rw [evaluate, Evaluation.identifier]
  exact Run.bind_eq_done_iff.mpr ⟨_, _, hrun, rfl⟩

/-- An operator between two expressions that give integers. -/
theorem evaluate_binary {depth : Nat} {origin : Origin} {operator : String} {left right : Expr}
    {m n : Int} (hleft : evaluate settings depth left frame machine = .done (.integer m) machine)
    (hright : evaluate settings depth right frame machine = .done (.integer n) machine) :
    evaluate settings (depth + 1) (.binary origin left operator right) frame machine =
      .done (Value.binary operator (.integer m) (.integer n)) machine := by
  rw [evaluate, Run.andThen_of_done hleft rfl, Run.andThen_of_done hright rfl]
  rfl

end

/-- On integers of 64 bits, sum, difference, product and negation are exact or report an overflow.
Division reports a divisor of zero and the one quotient that does not fit, and else rounds toward
zero; and then `x - (x / y) * y` evaluates to the remainder. The right operand may be any
integer. -/
theorem arithmetic_is_exact (a b : Int) (ha : IsInt64 a) :
    ((Value.binary "+" (.integer a) (.integer b)).IsExact (a + b) ∧
      (Value.binary "-" (.integer a) (.integer b)).IsExact (a - b) ∧
      (Value.binary "*" (.integer a) (.integer b)).IsExact (a * b) ∧
      (Value.unary "-" (.integer a)).IsExact (-a)) ∧
    ((Value.binary "/" (.integer a) (.integer b)).failureKind? = some .divisionByZero ↔ b = 0) ∧
    ((Value.binary "/" (.integer a) (.integer b)).failureKind? = some .integerOverflow ↔
      a = int64Min ∧ b = -1) ∧
    (b ≠ 0 → ¬(a = int64Min ∧ b = -1) →
      ∃ q r, Value.binary "/" (.integer a) (.integer b) = .integer q ∧
        IsTruncatedDivision a b q r ∧
        ∀ (settings : Settings) (frame : FrameId) (machine : Machine) (x y : Expr)
            (divide multiply subtract : Origin) (depth : Nat),
          x.StandsFor settings frame machine a → y.StandsFor settings frame machine b →
            let product := Expr.binary multiply (.binary divide x "/" y) "*" y
            evaluate settings (depth + 3) product frame machine = .done (.integer (q * b)) machine ∧
              evaluate settings (depth + 4) (.binary subtract x "-" product) frame machine =
                .done (.integer r) machine) := by
  refine ⟨⟨Value.ofInt_isExact _, Value.ofInt_isExact _, Value.ofInt_isExact _,
    Value.ofInt_isExact _⟩, Value.divide_eq_divisionByZero_iff,
    Value.divide_eq_integerOverflow_iff ha, fun hzero hlowest ↦ ?_⟩
  have hquotient : Value.binary "/" (.integer a) (.integer b) = .integer (a.tdiv b) := by
    rw [Value.binary_divide a hzero]
    exact (Value.ofInt_isExact _).1 ((isInt64_tdiv_iff ha hzero).mpr hlowest)
  have hproduct : Value.binary "*" (.integer (a.tdiv b)) (.integer b) =
      .integer (a.tdiv b * b) :=
    (Value.ofInt_isExact _).1 (isInt64_between ha (tdiv_mul_between a b))
  have hremainder : Value.binary "-" (.integer a) (.integer (a.tdiv b * b)) =
      .integer (a.tmod b) := by
    have hdifference : a - a.tdiv b * b = a.tmod b := by
      rw [Int.mul_comm, Int.tmod_def]
    show Value.ofInt (a - a.tdiv b * b) = _
    rw [hdifference]
    exact (Value.ofInt_isExact _).1 (isInt64_between ha (tmod_between a b))
  refine ⟨a.tdiv b, a.tmod b, hquotient, isTruncatedDivision_tdiv a hzero, ?_⟩
  intro settings frame machine x y divide multiply subtract depth hx hy product
  have hdivided : evaluate settings (depth + 2) (.binary divide x "/" y) frame machine =
      .done (.integer (a.tdiv b)) machine := by
    rw [← hquotient]
    exact evaluate_binary (hx depth) (hy depth)
  have hevaluated : evaluate settings (depth + 3) product frame machine =
      .done (.integer (a.tdiv b * b)) machine := by
    rw [← hproduct]
    exact evaluate_binary hdivided (hy (depth + 1))
  refine ⟨hevaluated, ?_⟩
  rw [← hremainder]
  exact evaluate_binary (hx (depth + 2)) hevaluated

/-- At the lowest integer, with both operands as names. -/
theorem arithmetic_is_exact_at_lowest :
    let machine := Machine.start
    let bound := { machine with scopes :=
      (machine.scopes.set topFrame "x" (.integer int64Min)).set topFrame "y" (.integer 10) }
    let origin : Origin := Token.endOfInput.origin
    let x := Expr.identifier ⟨origin, "x"⟩
    let y := Expr.identifier ⟨origin, "y"⟩
    IsInt64 int64Min ∧
      x.StandsFor {} topFrame bound int64Min ∧ y.StandsFor {} topFrame bound 10 ∧
      ∃ q r, Value.binary "/" (.integer int64Min) (.integer 10) = .integer q ∧
        IsTruncatedDivision int64Min 10 q r ∧
          evaluate {} 4 (.binary origin x "-"
              (.binary origin (.binary origin x "/" y) "*" y)) topFrame bound =
            .done (.integer r) bound := by
  intro machine bound origin x y
  have hlowest : IsInt64 int64Min := by decide
  have hx : x.StandsFor {} topFrame bound int64Min := Expr.standsFor_identifier rfl
  have hy : y.StandsFor {} topFrame bound 10 := Expr.standsFor_identifier rfl
  obtain ⟨q, r, hquotient, hdivision, hevaluated⟩ :=
    (arithmetic_is_exact int64Min 10 hlowest).2.2.2 (by decide) (by decide)
  exact ⟨hlowest, hx, hy, q, r, hquotient, hdivision,
    (hevaluated {} topFrame bound x y origin origin origin 0 hx hy).2⟩

end MonkeyLang
