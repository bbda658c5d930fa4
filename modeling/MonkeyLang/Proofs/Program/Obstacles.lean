import Mathlib.Tactic
import MonkeyLang.Value.Text

/-!
# Obstacles and room

What stops the text of a tree or a value depends on the room that there is for nested steps, and it
does so in one way only: with less room the text is stopped by the lack of it, or by what stops it
with more room too (`Halt.Widens`). The property passes from the parts of a text to the whole, so
every text has it. Against a text without a bound, it says that a tree whose literals have a text is
stopped by nothing but a lack of room.
-/

set_option autoImplicit false

namespace MonkeyLang

/-- There is no less room in the second. -/
def Room.Le (room more : Room) : Prop :=
  ∀ bound ∈ more, ∃ least ∈ room, least ≤ bound

theorem Room.le_none (room : Room) : Room.Le room none :=
  fun _ hbound ↦ absurd hbound (Option.not_mem_none _)

theorem Room.some_le_some {room more : Nat} (hle : room ≤ more) : Room.Le (some room) (some more) :=
  fun _ hbound ↦ ⟨room, rfl, Option.mem_some_iff.mp hbound ▸ hle⟩

namespace Halt

/-- With less room, the obstacle is the lack of it or the obstacle that there is with more. -/
def Widens (obstacle : Room → Option Halt) : Prop :=
  ∀ ⦃room more : Room⦄, Room.Le room more →
    obstacle room = some .depth ∨ obstacle room = obstacle more

theorem widens_const (obstacle : Option Halt) : Widens fun _ ↦ obstacle :=
  fun _ _ _ ↦ .inr rfl

theorem Widens.orElse {first second : Room → Option Halt} (hfirst : Widens first)
    (hsecond : Widens second) : Widens fun room ↦ first room <|> second room := by
  intro room more hle
  rcases hfirst hle with hdepth | heq
  · exact .inl (by simp [hdepth])
  · cases hmore : first more with
    | some reason => exact .inr (by simp [heq, hmore])
    | none => simpa [heq, hmore] using hsecond hle

theorem Widens.within {inner : Room → Option Halt} (hinner : Widens inner) (cost : Nat) :
    Widens (within cost inner) := by
  intro room more hle
  cases room with
  | none =>
    cases more with
    | none => exact .inr rfl
    | some bound => exact absurd (hle bound rfl) (by simp)
  | some least =>
    rw [Halt.within]
    split_ifs with hcost
    · exact .inl rfl
    cases more with
    | none => exact hinner (Room.le_none _)
    | some bound =>
      have hbound : least ≤ bound := by simpa [Room.Le] using hle
      rw [Halt.within, if_neg (by omega)]
      exact hinner (Room.some_le_some (by omega))

theorem widens_beyond (needed : Nat) : Widens (beyond needed) :=
  (widens_const none).within needed

/-- Where nothing but a lack of room can stop a text. -/
theorem Widens.eq_depth {obstacle : Room → Option Halt} (h : Widens obstacle)
    (hnone : obstacle none = none) (room : Room) :
    obstacle room = none ∨ obstacle room = some .depth := by
  rcases h (Room.le_none room) with hdepth | heq
  · exact .inr hdepth
  · exact .inl (heq.trans hnone)

end Halt

open Halt

/-! ### Trees -/

mutual

theorem Expr.widens_obstacle? : (tree : Expr) → Widens tree.obstacle?
  | .identifier _ | .integer _ _ | .boolean _ _ | .string _ _ => widens_const _
  | .unary _ _ right => right.widens_obstacle?.within _
  | .binary _ left _ right =>
    (left.widens_obstacle?.within _).orElse (right.widens_obstacle?.within _)
  | .conditional _ condition consequence none =>
    (condition.widens_obstacle?.within _).orElse (consequence.widens_obstacle?.within _)
  | .conditional _ condition consequence (some alternative) =>
    (condition.widens_obstacle?.within _).orElse
      ((consequence.widens_obstacle?.within _).orElse (alternative.widens_obstacle?.within _))
  | .function _ _ body => body.widens_obstacle?.within _
  | .call _ callee arguments =>
    (Expr.widens_obstacleIn? arguments).orElse (callee.widens_obstacle?.within _)
  | .array _ elements => Expr.widens_obstacleIn? elements
  | .index _ left place =>
    (left.widens_obstacle?.within _).orElse (place.widens_obstacle?.within _)
  | .hash _ pairs => Expr.widens_obstacleInPairs? pairs

theorem Expr.widens_obstacleIn? : (trees : List Expr) → Widens (Expr.obstacleIn? trees)
  | [] => widens_const none
  | tree :: rest => (tree.widens_obstacle?.within _).orElse (Expr.widens_obstacleIn? rest)

theorem Expr.widens_obstacleInPairs? :
    (pairs : List (Expr × Expr)) → Widens (Expr.obstacleInPairs? pairs)
  | [] => widens_const none
  | (key, value) :: rest =>
    (key.widens_obstacle?.within _).orElse
      ((value.widens_obstacle?.within _).orElse (Expr.widens_obstacleInPairs? rest))

theorem Stmt.widens_obstacle? : (tree : Stmt) → Widens tree.obstacle?
  | .binding _ _ value => value.widens_obstacle?.within _
  | .returning _ value => value.widens_obstacle?.within _
  | .expression _ tree => tree.widens_obstacle?.within _
  | .block body => body.widens_obstacle?

theorem Stmt.widens_obstacleIn? : (trees : List Stmt) → Widens (Stmt.obstacleIn? trees)
  | [] => widens_const none
  | tree :: rest => (tree.widens_obstacle?.within _).orElse (Stmt.widens_obstacleIn? rest)

theorem Block.widens_obstacle? : (tree : Block) → Widens tree.obstacle?
  | .mk _ statements => Stmt.widens_obstacleIn? statements

end

/-! ### Values -/

mutual

theorem Value.widens_obstacle? : (value : Value) → Widens value.obstacle?
  | .returned value => value.widens_obstacle?.within _
  | .function closure => closure.body.widens_obstacle?.within _
  | .array elements => Value.widens_obstacleIn? elements
  | .hash pairs => Value.widens_obstacleInPairs? pairs
  | .integer _ | .string _ | .boolean _ | .null | .builtin _ | .error _ => widens_const none

theorem Value.widens_obstacleIn? : (values : List Value) → Widens (Value.obstacleIn? values)
  | [] => widens_const none
  | value :: rest => (value.widens_obstacle?.within _).orElse (Value.widens_obstacleIn? rest)

theorem Value.widens_obstacleInPairs? :
    (pairs : List (Key × Value)) → Widens (Value.obstacleInPairs? pairs)
  | [] => widens_const none
  | (_, value) :: rest =>
    (value.widens_obstacle?.within _).orElse (Value.widens_obstacleInPairs? rest)

end

end MonkeyLang
