/-!
The integers of programs: 64 bits with a sign, and division that rounds toward zero.
-/

set_option autoImplicit false

namespace MonkeyLang

def int64Min : Int := -0x8000000000000000

def int64Max : Int := 0x7fffffffffffffff

/-- The quotient rounded toward zero: that of the absolute values, with the sign that the signs
give. There is none by zero. -/
def quotient? (a b : Int) : Option Int :=
  if b = 0 then none
  else
    let quotient : Int := (a.natAbs / b.natAbs : Nat)
    some (if a < 0 ↔ b < 0 then quotient else -quotient)

end MonkeyLang
