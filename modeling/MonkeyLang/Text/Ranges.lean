/-!
Sets of code points, written as ascending lists of closed ranges. Membership stops at the first
range that starts above the code point, so a look-up of an early code point is short.
-/

set_option autoImplicit false

namespace MonkeyLang.Text

abbrev Ranges := List (Nat × Nat)

def Ranges.contains : Ranges → Nat → Bool
  | [], _ => false
  | (low, high) :: rest, n => low ≤ n && (n ≤ high || contains rest n)

end MonkeyLang.Text
