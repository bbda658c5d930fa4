import MonkeyLang.Json

/-!
Comparison of JSON values, the order of fields included.
-/

set_option autoImplicit false

namespace MonkeyLang.Json

mutual

def same : Json → Json → Bool
  | .null, .null => true
  | .boolean a, .boolean b => a = b
  | .integer m, .integer n => m = n
  | .real x, .real y => x = y
  | .string s, .string t => s = t
  | .list xs, .list ys => sameEach xs ys
  | .object ps, .object qs => sameFields ps qs
  | _, _ => false

def sameEach : List Json → List Json → Bool
  | [], [] => true
  | x :: xs, y :: ys => x.same y && sameEach xs ys
  | _, _ => false

def sameFields : List (String × Json) → List (String × Json) → Bool
  | [], [] => true
  | (m, x) :: ps, (n, y) :: qs => m = n && x.same y && sameFields ps qs
  | _, _ => false

end

end MonkeyLang.Json
