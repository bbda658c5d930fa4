import MonkeyLang.Json.Equality
import MonkeyLang.Program

/-!
Comparison of trees, tokens included.
-/

set_option autoImplicit false

namespace MonkeyLang

def Origin.same (a b : Origin) : Bool :=
  a.kind = b.kind && a.literal.same b.literal

def Identifier.same (a b : Identifier) : Bool :=
  a.origin.same b.origin && a.value = b.value

def Identifier.sameEach : List Identifier → List Identifier → Bool
  | [], [] => true
  | a :: as, b :: bs => a.same b && sameEach as bs
  | _, _ => false

mutual

def Expr.same : Expr → Expr → Bool
  | .identifier a, .identifier b => a.same b
  | .integer o m, .integer p n => o.same p && m = n
  | .boolean o a, .boolean p b => o.same p && a = b
  | .string o s, .string p t => o.same p && s = t
  | .unary o f a, .unary p g b => o.same p && f = g && a.same b
  | .binary o a f c, .binary p b g d => o.same p && a.same b && f = g && c.same d
  | .conditional o a b none, .conditional p c d none => o.same p && a.same c && b.same d
  | .conditional o a b (some e), .conditional p c d (some f) =>
    o.same p && a.same c && b.same d && e.same f
  | .function o as a, .function p bs b => o.same p && Identifier.sameEach as bs && a.same b
  | .call o a as, .call p b bs => o.same p && a.same b && Expr.sameEach as bs
  | .array o as, .array p bs => o.same p && Expr.sameEach as bs
  | .index o a c, .index p b d => o.same p && a.same b && c.same d
  | .hash o as, .hash p bs => o.same p && Expr.samePairs as bs
  | _, _ => false

def Expr.sameEach : List Expr → List Expr → Bool
  | [], [] => true
  | a :: as, b :: bs => a.same b && Expr.sameEach as bs
  | _, _ => false

def Expr.samePairs : List (Expr × Expr) → List (Expr × Expr) → Bool
  | [], [] => true
  | (a, c) :: as, (b, d) :: bs => a.same b && c.same d && Expr.samePairs as bs
  | _, _ => false

def Stmt.same : Stmt → Stmt → Bool
  | .binding o m a, .binding p n b => o.same p && m.same n && a.same b
  | .returning o a, .returning p b => o.same p && a.same b
  | .expression o a, .expression p b => o.same p && a.same b
  | .block a, .block b => a.same b
  | _, _ => false

def Stmt.sameEach : List Stmt → List Stmt → Bool
  | [], [] => true
  | a :: as, b :: bs => a.same b && Stmt.sameEach as bs
  | _, _ => false

def Block.same : Block → Block → Bool
  | .mk o as, .mk p bs => o.same p && Stmt.sameEach as bs

end

def Program.same (p q : Program) : Bool :=
  Stmt.sameEach p.statements q.statements

end MonkeyLang
