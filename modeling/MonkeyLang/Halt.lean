import MonkeyLang.Failure
import MonkeyLang.Json

/-!
What stops a computation for good. Nested steps are counted, those of evaluation as well as those
of writing a tree or a value as text: what is written nests as deep as the tree does. A computation
that has as many steps left as it needs may still be stopped by a literal that is no text where the
text of a tree is needed.
-/

set_option autoImplicit false

namespace MonkeyLang

/-- Why a computation stops: too many nested steps, or a literal that is no text where the text of
a tree is needed. -/
inductive Halt where
  | depth
  | nonText (literal : Json)

/-- How many nested steps are left, if there is a bound to them. -/
abbrev Room := Option Nat

namespace Halt

def message : Halt → String
  | .depth => Failure.Kind.depthExceeded.label
  | .nonText literal => "__str__ returned non-string (type " ++ literal.typeName ++ ")"

/-- What stands in the way of a part that is `cost` nested steps further in. -/
def within (cost : Nat) (inner : Room → Option Halt) : Room → Option Halt
  | none => inner none
  | some room => if room < cost then some .depth else inner (some (room - cost))

/-- What stands in the way of a text that takes this many nested steps. -/
def beyond (needed : Nat) : Room → Option Halt :=
  within needed fun _ => none

@[simp] theorem within_none (cost : Nat) (inner : Room → Option Halt) :
    within cost inner none = inner none := rfl

end Halt

/-! The nested steps that a text takes for the text of a part inside it. -/

namespace Steps

/-- A part that is the whole text. -/
def alone : Nat := 2

/-- A part between other pieces of text. -/
def inserted : Nat := 3

/-- What joining a list adds for each of its items. -/
def joined : Nat := 2

/-- A statement among the statements of a block. -/
def statement : Nat := 3

/-- The inspected form of a record. -/
def record : Nat := 3

/-- What the inspected form of a sequence adds for each of its items. -/
def sequence : Nat := 1

end Steps

end MonkeyLang
