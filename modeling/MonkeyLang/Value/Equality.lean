import MonkeyLang.Value

/-!
Equality of values. Values of different kinds are never equal. Two functions are equal when they
are one function, and two hashes when they give equal values to the same keys, in whatever order.
-/

set_option autoImplicit false

namespace MonkeyLang.Value

mutual

def same : Value → Value → Bool
  | integer m, integer n => m = n
  | string s, string t => s = t
  | boolean a, boolean b => a = b
  | null, null => true
  | returned v, returned w => v.same w
  | function f, function g => f.serial = g.serial
  | array vs, array ws => sameEach vs ws
  | hash ps, hash qs => ps.length = qs.length && sameUnder qs ps
  | builtin b, builtin c => b = c
  | error e, error f => e = f
  | _, _ => false

def sameEach : List Value → List Value → Bool
  | [], [] => true
  | v :: vs, w :: ws => v.same w && sameEach vs ws
  | _, _ => false

/-- Every pair has its key in `pairs`, with an equal value. -/
def sameUnder (pairs : List (Key × Value)) : List (Key × Value) → Bool
  | [] => true
  | (key, v) :: rest =>
    (match Entries.get? pairs key with
      | some w => v.same w
      | none => false) && sameUnder pairs rest

end

end MonkeyLang.Value
