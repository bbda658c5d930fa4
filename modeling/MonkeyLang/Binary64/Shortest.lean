import MonkeyLang.Binary64

/-!
Shortest decimals. A finite number is written with the fewest significant digits that read back
as the number, and of the decimals with that many digits the nearest one. The text is positional
from `10 ^ -4` up to `10 ^ 16` and has a fractional part there; outside it has an exponent of at
least two digits.
-/

set_option autoImplicit false

namespace MonkeyLang.Binary64

/-- The power of ten at the first significant digit of a positive ratio. -/
def decimalPlace (num den : Nat) : Int :=
  if den ≤ num then (decimalLength (num / den) : Int) - 1
  else -(decimalLength ((den - 1) / num) : Int)

/-- `num / den` in units of `10 ^ scale`, rounded down, and whether the next unit is nearer. -/
def decimalFloor (num den : Nat) (scale : Int) : Nat × Bool :=
  let (n, d) :=
    if 0 ≤ scale then (num, den * Nat.pow 10 scale.toNat)
    else (num * Nat.pow 10 (-scale).toNat, den)
  let quotient := n / d
  let twice := 2 * (n % d)
  (quotient, d < twice || (twice == d && quotient % 2 == 1))

/-- The decimal of `count` digits nearest to the number among those that read back as it. -/
def decimalOfLength? (mantissa : Nat) (exponent : Int) (count : Nat) : Option (Nat × Int) :=
  let (num, den) := ratio mantissa exponent
  let scale := decimalPlace num den - count + 1
  let (low, nextIsNearer) := decimalFloor num den scale
  let candidates := if nextIsNearer then [low + 1, low] else [low, low + 1]
  (candidates.find? fun digits => ofDecimal false digits scale = .finite false mantissa exponent).map
    (·, scale)

/-- The shortest decimal of a positive finite number, as digits and a scale; seventeen digits
always suffice. -/
def shortest (mantissa : Nat) (exponent : Int) : Nat × Int :=
  ((List.range 17).findSome? fun k => decimalOfLength? mantissa exponent (k + 1)).getD (0, 0)

def dropTrailingZeros (digits : List Char) : List Char :=
  (digits.reverse.dropWhile (· = '0')).reverse

/-- The text of `0.d₁d₂… · 10 ^ point` for the significant digits `d₁d₂…`. -/
def layout (digits : List Char) (point : Int) : List Char :=
  if -4 < point ∧ point ≤ 16 then
    if point ≤ 0 then '0' :: '.' :: (List.replicate (-point).toNat '0' ++ digits)
    else
      let whole := digits.take point.toNat
      let fraction := digits.drop point.toNat
      whole ++ List.replicate (point.toNat - digits.length) '0' ++ '.' ::
        (if fraction.isEmpty then ['0'] else fraction)
  else
    let power := point - 1
    let powerDigits := Nat.toDigits 10 power.natAbs
    let fraction := digits.drop 1
    digits.take 1 ++ (if fraction.isEmpty then [] else '.' :: fraction) ++
      'e' :: (if power < 0 then '-' else '+') ::
        (List.replicate (2 - powerDigits.length) '0' ++ powerDigits)

def magnitudeText (mantissa : Nat) (exponent : Int) : List Char :=
  if mantissa = 0 then ['0', '.', '0']
  else
    let (digits, scale) := shortest mantissa exponent
    let chars := Nat.toDigits 10 digits
    layout (dropTrailingZeros chars) (scale + chars.length)

/-- The text of a number, with `infinityText` and `nanText` for the two kinds that no decimal
denotes. -/
def textWith (infinityText nanText : String) : Binary64 → String
  | .nan => nanText
  | .infinity negative => if negative then "-" ++ infinityText else infinityText
  | .finite negative mantissa exponent =>
    .ofList ((if negative then ['-'] else []) ++ magnitudeText mantissa exponent)

def text : Binary64 → String :=
  textWith "inf" "nan"

end MonkeyLang.Binary64
