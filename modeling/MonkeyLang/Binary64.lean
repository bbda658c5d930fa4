/-!
Binary floating point numbers of 64 bits. A finite number is `mantissa · 2 ^ exponent` with the
mantissa below `2 ^ 53`; it is normal, with the mantissa from `2 ^ 52` on, unless the exponent is
the least one. Decimals are read exactly and rounded to the nearest number, a tie to the even
mantissa.
-/

set_option autoImplicit false

namespace MonkeyLang

inductive Binary64 where
  | nan
  | infinity (negative : Bool)
  | finite (negative : Bool) (mantissa : Nat) (exponent : Int)
  deriving DecidableEq, Repr

namespace Binary64

def minExponent : Int := -1074

def maxExponent : Int := 971

/-- The quotient rounded to the nearest integer, a tie to the even one. -/
def divNearest (num den : Nat) : Nat :=
  let quotient := num / den
  let twice := 2 * (num % den)
  if den < twice ∨ (twice = den ∧ quotient % 2 = 1) then quotient + 1 else quotient

/-- `num / den`, the powers of two of `exponent` taken out. -/
def scaleRatio (num den : Nat) (exponent : Int) : Nat × Nat :=
  if 0 ≤ exponent then (num, den <<< exponent.toNat) else (num <<< (-exponent).toNat, den)

/-- The exponent at which the mantissa of `num / den` has 53 bits, or the least one. -/
def ratioExponent (num den : Nat) : Int :=
  let low : Int := (num.log2 : Int) - den.log2 - 53
  let (n, d) := scaleRatio num den low
  max minExponent (if n / d < 1 <<< 53 then low else low + 1)

def ofRatio (negative : Bool) (num den : Nat) : Binary64 :=
  if num = 0 then .finite negative 0 minExponent
  else
    let exponent := ratioExponent num den
    let (n, d) := scaleRatio num den exponent
    let mantissa := divNearest n d
    let (mantissa, exponent) :=
      if mantissa = 1 <<< 53 then (1 <<< 52, exponent + 1) else (mantissa, exponent)
    if maxExponent < exponent then .infinity negative else .finite negative mantissa exponent

def decimalLength (n : Nat) : Nat :=
  (Nat.toDigits 10 n).length

/-- The number nearest to `digits · 10 ^ scale`. Powers far outside the range are decided by the
place of the first digit alone. -/
def ofDecimal (negative : Bool) (digits : Nat) (scale : Int) : Binary64 :=
  let place := scale + decimalLength digits
  if digits = 0 ∨ place < -400 then .finite negative 0 minExponent
  else if 400 < place then .infinity negative
  else if 0 ≤ scale then ofRatio negative (digits * Nat.pow 10 scale.toNat) 1
  else ofRatio negative digits (Nat.pow 10 (-scale).toNat)

def isZero : Binary64 → Bool
  | .finite _ 0 _ => true
  | _ => false

/-- The magnitude of a finite number as a ratio. -/
def ratio (mantissa : Nat) (exponent : Int) : Nat × Nat :=
  if 0 ≤ exponent then (mantissa <<< exponent.toNat, 1) else (mantissa, 1 <<< (-exponent).toNat)

/-- The integer part of a finite number. -/
def truncate (negative : Bool) (mantissa : Nat) (exponent : Int) : Int :=
  let (num, den) := ratio mantissa exponent
  if negative then -((num / den : Nat) : Int) else (num / den : Nat)

end Binary64

end MonkeyLang
