import Mathlib.Tactic
import MonkeyLang.Program.Render

/-!
# Properties of all nodes of a tree

`Expr.Every p` and its companions say that a property holds of every node of a tree, in the bodies
of functions too. A tree has a rendering if every literal in it has a text, which is such a
property.
-/

set_option autoImplicit false

namespace MonkeyLang

mutual

def Expr.Every (p : Node → Prop) : Expr → Prop
  | .identifier name => p (.expression (.identifier name))
  | .integer origin value => p (.expression (.integer origin value))
  | .boolean origin value => p (.expression (.boolean origin value))
  | .string origin value => p (.expression (.string origin value))
  | .unary origin operator right =>
    p (.expression (.unary origin operator right)) ∧ right.Every p
  | .binary origin left operator right =>
    p (.expression (.binary origin left operator right)) ∧ left.Every p ∧ right.Every p
  | .conditional origin condition consequence none =>
    p (.expression (.conditional origin condition consequence none)) ∧ condition.Every p ∧
      consequence.Every p
  | .conditional origin condition consequence (some alternative) =>
    p (.expression (.conditional origin condition consequence (some alternative))) ∧
      condition.Every p ∧ consequence.Every p ∧ alternative.Every p
  | .function origin parameters body =>
    p (.expression (.function origin parameters body)) ∧ body.Every p
  | .call origin callee arguments =>
    p (.expression (.call origin callee arguments)) ∧ callee.Every p ∧ Expr.EveryIn p arguments
  | .array origin elements => p (.expression (.array origin elements)) ∧ Expr.EveryIn p elements
  | .index origin left place =>
    p (.expression (.index origin left place)) ∧ left.Every p ∧ place.Every p
  | .hash origin pairs => p (.expression (.hash origin pairs)) ∧ Expr.EveryInPairs p pairs

def Expr.EveryIn (p : Node → Prop) : List Expr → Prop
  | [] => True
  | expression :: rest => expression.Every p ∧ Expr.EveryIn p rest

def Expr.EveryInPairs (p : Node → Prop) : List (Expr × Expr) → Prop
  | [] => True
  | (key, value) :: rest => key.Every p ∧ value.Every p ∧ Expr.EveryInPairs p rest

def Stmt.Every (p : Node → Prop) : Stmt → Prop
  | .binding origin name value => p (.statement (.binding origin name value)) ∧ value.Every p
  | .returning origin value => p (.statement (.returning origin value)) ∧ value.Every p
  | .expression origin tree => p (.statement (.expression origin tree)) ∧ tree.Every p
  | .block body => body.Every p

def Stmt.EveryIn (p : Node → Prop) : List Stmt → Prop
  | [] => True
  | statement :: rest => statement.Every p ∧ Stmt.EveryIn p rest

def Block.Every (p : Node → Prop) : Block → Prop
  | .mk origin statements =>
    p (.statement (.block (.mk origin statements))) ∧ Stmt.EveryIn p statements

end

mutual

/-- A property that can be decided of single nodes can be decided of a whole tree. -/
def Expr.decideEvery (p : Node → Prop) [DecidablePred p] :
    (tree : Expr) → Decidable (tree.Every p)
  | .identifier name => inferInstanceAs (Decidable (p (.expression (.identifier name))))
  | .integer origin value => inferInstanceAs (Decidable (p (.expression (.integer origin value))))
  | .boolean origin value => inferInstanceAs (Decidable (p (.expression (.boolean origin value))))
  | .string origin value => inferInstanceAs (Decidable (p (.expression (.string origin value))))
  | .unary _ _ right =>
    have := right.decideEvery p
    inferInstanceAs (Decidable (_ ∧ right.Every p))
  | .binary _ left _ right =>
    have := left.decideEvery p
    have := right.decideEvery p
    inferInstanceAs (Decidable (_ ∧ left.Every p ∧ right.Every p))
  | .conditional _ condition consequence none =>
    have := condition.decideEvery p
    have := consequence.decideEvery p
    inferInstanceAs (Decidable (_ ∧ condition.Every p ∧ consequence.Every p))
  | .conditional _ condition consequence (some alternative) =>
    have := condition.decideEvery p
    have := consequence.decideEvery p
    have := alternative.decideEvery p
    inferInstanceAs (Decidable (_ ∧ condition.Every p ∧ consequence.Every p ∧ alternative.Every p))
  | .function _ _ body =>
    have := body.decideEvery p
    inferInstanceAs (Decidable (_ ∧ body.Every p))
  | .call _ callee arguments =>
    have := callee.decideEvery p
    have := Expr.decideEveryIn p arguments
    inferInstanceAs (Decidable (_ ∧ callee.Every p ∧ Expr.EveryIn p arguments))
  | .array _ elements =>
    have := Expr.decideEveryIn p elements
    inferInstanceAs (Decidable (_ ∧ Expr.EveryIn p elements))
  | .index _ left place =>
    have := left.decideEvery p
    have := place.decideEvery p
    inferInstanceAs (Decidable (_ ∧ left.Every p ∧ place.Every p))
  | .hash _ pairs =>
    have := Expr.decideEveryInPairs p pairs
    inferInstanceAs (Decidable (_ ∧ Expr.EveryInPairs p pairs))

def Expr.decideEveryIn (p : Node → Prop) [DecidablePred p] :
    (trees : List Expr) → Decidable (Expr.EveryIn p trees)
  | [] => inferInstanceAs (Decidable True)
  | tree :: rest =>
    have := tree.decideEvery p
    have := Expr.decideEveryIn p rest
    inferInstanceAs (Decidable (tree.Every p ∧ Expr.EveryIn p rest))

def Expr.decideEveryInPairs (p : Node → Prop) [DecidablePred p] :
    (pairs : List (Expr × Expr)) → Decidable (Expr.EveryInPairs p pairs)
  | [] => inferInstanceAs (Decidable True)
  | (key, value) :: rest =>
    have := key.decideEvery p
    have := value.decideEvery p
    have := Expr.decideEveryInPairs p rest
    inferInstanceAs (Decidable (key.Every p ∧ value.Every p ∧ Expr.EveryInPairs p rest))

def Stmt.decideEvery (p : Node → Prop) [DecidablePred p] :
    (tree : Stmt) → Decidable (tree.Every p)
  | .binding _ _ value =>
    have := value.decideEvery p
    inferInstanceAs (Decidable (_ ∧ value.Every p))
  | .returning _ value =>
    have := value.decideEvery p
    inferInstanceAs (Decidable (_ ∧ value.Every p))
  | .expression _ tree =>
    have := tree.decideEvery p
    inferInstanceAs (Decidable (_ ∧ tree.Every p))
  | .block body => body.decideEvery p

def Stmt.decideEveryIn (p : Node → Prop) [DecidablePred p] :
    (trees : List Stmt) → Decidable (Stmt.EveryIn p trees)
  | [] => inferInstanceAs (Decidable True)
  | tree :: rest =>
    have := tree.decideEvery p
    have := Stmt.decideEveryIn p rest
    inferInstanceAs (Decidable (tree.Every p ∧ Stmt.EveryIn p rest))

def Block.decideEvery (p : Node → Prop) [DecidablePred p] :
    (tree : Block) → Decidable (tree.Every p)
  | .mk _ statements =>
    have := Stmt.decideEveryIn p statements
    inferInstanceAs (Decidable (_ ∧ Stmt.EveryIn p statements))

end

instance (p : Node → Prop) [DecidablePred p] : DecidablePred (Stmt.Every p) :=
  Stmt.decideEvery p

instance (p : Node → Prop) [DecidablePred p] : DecidablePred (Block.Every p) :=
  Block.decideEvery p

variable {p : Node → Prop}

theorem Expr.everyIn_iff {expressions : List Expr} :
    Expr.EveryIn p expressions ↔ ∀ expression ∈ expressions, expression.Every p := by
  induction expressions with
  | nil => simp [Expr.EveryIn]
  | cons expression rest ih => rw [Expr.EveryIn, ih, List.forall_mem_cons]

theorem Expr.everyInPairs_iff {pairs : List (Expr × Expr)} :
    Expr.EveryInPairs p pairs ↔ ∀ pair ∈ pairs, pair.1.Every p ∧ pair.2.Every p := by
  induction pairs with
  | nil => simp [Expr.EveryInPairs]
  | cons pair rest ih => rw [Expr.EveryInPairs, ih, List.forall_mem_cons, and_assoc]

theorem Stmt.everyIn_iff {statements : List Stmt} :
    Stmt.EveryIn p statements ↔ ∀ statement ∈ statements, statement.Every p := by
  induction statements with
  | nil => simp [Stmt.EveryIn]
  | cons statement rest ih => rw [Stmt.EveryIn, ih, List.forall_mem_cons]

/-! ### Properties that all nodes have -/

mutual

theorem Expr.every_of_forall (h : ∀ node, p node) : (tree : Expr) → tree.Every p
  | .identifier _ | .integer _ _ | .boolean _ _ | .string _ _ => h _
  | .unary _ _ right => ⟨h _, right.every_of_forall h⟩
  | .binary _ left _ right => ⟨h _, left.every_of_forall h, right.every_of_forall h⟩
  | .conditional _ condition consequence none =>
    ⟨h _, condition.every_of_forall h, consequence.every_of_forall h⟩
  | .conditional _ condition consequence (some alternative) =>
    ⟨h _, condition.every_of_forall h, consequence.every_of_forall h,
      alternative.every_of_forall h⟩
  | .function _ _ body => ⟨h _, body.every_of_forall h⟩
  | .call _ callee arguments =>
    ⟨h _, callee.every_of_forall h, Expr.everyIn_of_forall h arguments⟩
  | .array _ elements => ⟨h _, Expr.everyIn_of_forall h elements⟩
  | .index _ left place => ⟨h _, left.every_of_forall h, place.every_of_forall h⟩
  | .hash _ pairs => ⟨h _, Expr.everyInPairs_of_forall h pairs⟩

theorem Expr.everyIn_of_forall (h : ∀ node, p node) :
    (trees : List Expr) → Expr.EveryIn p trees
  | [] => trivial
  | tree :: rest => ⟨tree.every_of_forall h, Expr.everyIn_of_forall h rest⟩

theorem Expr.everyInPairs_of_forall (h : ∀ node, p node) :
    (pairs : List (Expr × Expr)) → Expr.EveryInPairs p pairs
  | [] => trivial
  | (key, value) :: rest =>
    ⟨key.every_of_forall h, value.every_of_forall h, Expr.everyInPairs_of_forall h rest⟩

theorem Stmt.every_of_forall (h : ∀ node, p node) : (tree : Stmt) → tree.Every p
  | .binding _ _ value => ⟨h _, value.every_of_forall h⟩
  | .returning _ value => ⟨h _, value.every_of_forall h⟩
  | .expression _ tree => ⟨h _, tree.every_of_forall h⟩
  | .block body => body.every_of_forall h

theorem Stmt.everyIn_of_forall (h : ∀ node, p node) :
    (trees : List Stmt) → Stmt.EveryIn p trees
  | [] => trivial
  | tree :: rest => ⟨tree.every_of_forall h, Stmt.everyIn_of_forall h rest⟩

theorem Block.every_of_forall (h : ∀ node, p node) : (tree : Block) → tree.Every p
  | .mk _ statements => ⟨h _, Stmt.everyIn_of_forall h statements⟩

end

/-! ### Weaker properties -/

variable {q : Node → Prop}

mutual

theorem Expr.every_mono (himp : ∀ node, p node → q node) :
    (tree : Expr) → tree.Every p → tree.Every q
  | .identifier _, h | .integer _ _, h | .boolean _ _, h | .string _ _, h => himp _ h
  | .unary _ _ right, h => ⟨himp _ h.1, right.every_mono himp h.2⟩
  | .binary _ left _ right, h =>
    ⟨himp _ h.1, left.every_mono himp h.2.1, right.every_mono himp h.2.2⟩
  | .conditional _ condition consequence none, h =>
    ⟨himp _ h.1, condition.every_mono himp h.2.1, consequence.every_mono himp h.2.2⟩
  | .conditional _ condition consequence (some alternative), h =>
    ⟨himp _ h.1, condition.every_mono himp h.2.1, consequence.every_mono himp h.2.2.1,
      alternative.every_mono himp h.2.2.2⟩
  | .function _ _ body, h => ⟨himp _ h.1, body.every_mono himp h.2⟩
  | .call _ callee arguments, h =>
    ⟨himp _ h.1, callee.every_mono himp h.2.1, Expr.everyIn_mono himp arguments h.2.2⟩
  | .array _ elements, h => ⟨himp _ h.1, Expr.everyIn_mono himp elements h.2⟩
  | .index _ left place, h => ⟨himp _ h.1, left.every_mono himp h.2.1, place.every_mono himp h.2.2⟩
  | .hash _ pairs, h => ⟨himp _ h.1, Expr.everyInPairs_mono himp pairs h.2⟩

theorem Expr.everyIn_mono (himp : ∀ node, p node → q node) :
    (trees : List Expr) → Expr.EveryIn p trees → Expr.EveryIn q trees
  | [], _ => trivial
  | tree :: rest, h => ⟨tree.every_mono himp h.1, Expr.everyIn_mono himp rest h.2⟩

theorem Expr.everyInPairs_mono (himp : ∀ node, p node → q node) :
    (pairs : List (Expr × Expr)) → Expr.EveryInPairs p pairs → Expr.EveryInPairs q pairs
  | [], _ => trivial
  | (key, value) :: rest, h =>
    ⟨key.every_mono himp h.1, value.every_mono himp h.2.1, Expr.everyInPairs_mono himp rest h.2.2⟩

theorem Stmt.every_mono (himp : ∀ node, p node → q node) :
    (tree : Stmt) → tree.Every p → tree.Every q
  | .binding _ _ value, h => ⟨himp _ h.1, value.every_mono himp h.2⟩
  | .returning _ value, h => ⟨himp _ h.1, value.every_mono himp h.2⟩
  | .expression _ tree, h => ⟨himp _ h.1, tree.every_mono himp h.2⟩
  | .block body, h => body.every_mono himp h

theorem Stmt.everyIn_mono (himp : ∀ node, p node → q node) :
    (trees : List Stmt) → Stmt.EveryIn p trees → Stmt.EveryIn q trees
  | [], _ => trivial
  | tree :: rest, h => ⟨tree.every_mono himp h.1, Stmt.everyIn_mono himp rest h.2⟩

theorem Block.every_mono (himp : ∀ node, p node → q node) :
    (tree : Block) → tree.Every p → tree.Every q
  | .mk _ statements, h => ⟨himp _ h.1, Stmt.everyIn_mono himp statements h.2⟩

end

/-! ### Literals with a text -/

/-- Not a literal whose token has something else than a text. -/
def Node.HasText : Node → Prop
  | .expression (.integer origin _) | .expression (.boolean origin _) =>
    origin.literal.obstacle? = none
  | _ => True

mutual

theorem Expr.every_hasText_iff :
    (tree : Expr) → (tree.Every Node.HasText ↔ tree.obstacle? none = none)
  | .identifier _ | .integer _ _ | .boolean _ _ | .string _ _ => by
    simp [Expr.Every, Expr.obstacle?, Node.HasText]
  | .unary _ _ right => by
    simp [Expr.Every, Expr.obstacle?, Node.HasText, right.every_hasText_iff]
  | .binary _ left _ right => by
    simp [Expr.Every, Expr.obstacle?, Node.HasText, left.every_hasText_iff,
      right.every_hasText_iff]
  | .conditional _ condition consequence none => by
    simp [Expr.Every, Expr.obstacle?, Node.HasText, condition.every_hasText_iff,
      consequence.every_hasText_iff]
  | .conditional _ condition consequence (some alternative) => by
    simp [Expr.Every, Expr.obstacle?, Node.HasText, condition.every_hasText_iff,
      consequence.every_hasText_iff, alternative.every_hasText_iff]
  | .function _ _ body => by
    simp [Expr.Every, Expr.obstacle?, Node.HasText, body.every_hasText_iff]
  | .call _ callee arguments => by
    simp [Expr.Every, Expr.obstacle?, Node.HasText, callee.every_hasText_iff,
      Expr.everyIn_hasText_iff arguments, and_comm]
  | .array _ elements => by
    simp [Expr.Every, Expr.obstacle?, Node.HasText, Expr.everyIn_hasText_iff elements]
  | .index _ left place => by
    simp [Expr.Every, Expr.obstacle?, Node.HasText, left.every_hasText_iff,
      place.every_hasText_iff]
  | .hash _ pairs => by
    simp [Expr.Every, Expr.obstacle?, Node.HasText, Expr.everyInPairs_hasText_iff pairs]

theorem Expr.everyIn_hasText_iff : (trees : List Expr) →
    (Expr.EveryIn Node.HasText trees ↔ Expr.obstacleIn? trees none = none)
  | [] => by simp [Expr.EveryIn, Expr.obstacleIn?]
  | tree :: rest => by
    simp [Expr.EveryIn, Expr.obstacleIn?, tree.every_hasText_iff, Expr.everyIn_hasText_iff rest]

theorem Expr.everyInPairs_hasText_iff : (pairs : List (Expr × Expr)) →
    (Expr.EveryInPairs Node.HasText pairs ↔ Expr.obstacleInPairs? pairs none = none)
  | [] => by simp [Expr.EveryInPairs, Expr.obstacleInPairs?]
  | (key, value) :: rest => by
    simp [Expr.EveryInPairs, Expr.obstacleInPairs?, key.every_hasText_iff,
      value.every_hasText_iff, Expr.everyInPairs_hasText_iff rest]

theorem Stmt.every_hasText_iff :
    (tree : Stmt) → (tree.Every Node.HasText ↔ tree.obstacle? none = none)
  | .binding _ _ value => by
    simp [Stmt.Every, Stmt.obstacle?, Node.HasText, value.every_hasText_iff]
  | .returning _ value => by
    simp [Stmt.Every, Stmt.obstacle?, Node.HasText, value.every_hasText_iff]
  | .expression _ tree => by
    simp [Stmt.Every, Stmt.obstacle?, Node.HasText, tree.every_hasText_iff]
  | .block body => by
    simp [Stmt.Every, Stmt.obstacle?, body.every_hasText_iff]

theorem Stmt.everyIn_hasText_iff : (trees : List Stmt) →
    (Stmt.EveryIn Node.HasText trees ↔ Stmt.obstacleIn? trees none = none)
  | [] => by simp [Stmt.EveryIn, Stmt.obstacleIn?]
  | tree :: rest => by
    simp [Stmt.EveryIn, Stmt.obstacleIn?, tree.every_hasText_iff, Stmt.everyIn_hasText_iff rest]

theorem Block.every_hasText_iff :
    (tree : Block) → (tree.Every Node.HasText ↔ tree.obstacle? none = none)
  | .mk _ statements => by
    simp [Block.Every, Block.obstacle?, Node.HasText, Stmt.everyIn_hasText_iff statements]

end

end MonkeyLang
