import Mathlib.Tactic
import MonkeyLang.Proofs.Parser.Progress

/-!
# Nesting is bounded by the number of tokens

An attempt settles on some number of tokens if it is not cut off on any input that has at most that
many left. The parsing functions call each other, but on the way from one expression to the next one
inside of it at least one token is taken, and at most six calls are made. So an expression settles
on `count` tokens as soon as `6 * count + 1` nested calls are allowed (`expressionsSettle`), and
a statement needs three more.

The proof is by induction on the number of tokens: the functions that an expression is made of need
only the expressions behind its first token.
-/

set_option autoImplicit false

namespace MonkeyLang.Parser

variable {α β : Type}

namespace Attempt

/-- The attempt is not cut off where at most `count` tokens are left. -/
def Settles (count : Nat) (construct : Attempt α) : Prop :=
  ∀ input rest : Input, input.tokens.length ≤ count → construct input ≠ .cutOff rest

variable {count : Nat}

theorem Settles.mono {construct : Attempt α} {fewer : Nat} (h : construct.Settles count)
    (hle : fewer ≤ count) : construct.Settles fewer :=
  fun input rest hlength ↦ h input rest (hlength.trans hle)

theorem Settles.bind {first : Attempt α} {next : α → Attempt β} (hfirst : first.Settles count)
    (hforward : first.Forward) (hnext : ∀ value, (next value).Settles count) :
    (first >>= next).Settles count := by
  intro input rest hlength
  rw [bind_apply]
  cases houtcome : first input with
  | done value middle =>
    exact hnext value middle rest ((hforward.of_done houtcome).tokens.length_le.trans hlength)
  | failed middle => nofun
  | cutOff middle => exact absurd houtcome (hfirst input middle hlength)

/-! ### Primitive steps -/

theorem settles_pure (value : α) : (pure value : Attempt α).Settles count :=
  fun _ _ _ ↦ nofun

theorem settles_failed : (failed : Attempt α).Settles count :=
  fun _ _ _ ↦ nofun

theorem settles_refuse (problem : Diagnostic) : (refuse problem : Attempt α).Settles count :=
  fun _ _ _ ↦ nofun

theorem settles_current {next : Token → Attempt α} (hnext : ∀ token, (next token).Settles count) :
    (current >>= next).Settles count :=
  fun input rest hlength ↦ hnext _ input rest hlength

theorem settles_peekKind {next : Kind → Attempt α} (hnext : ∀ kind, (next kind).Settles count) :
    (peekKind >>= next).Settles count :=
  fun input rest hlength ↦ hnext _ input rest hlength

theorem settles_remaining {next : List Token → Attempt α}
    (hnext : ∀ tokens, (next tokens).Settles count) : (remaining >>= next).Settles count :=
  fun input rest hlength ↦ hnext _ input rest hlength

/-- Moving on leaves one token less, or none as before. -/
theorem length_advance_le {input : Input} (hlength : input.tokens.length ≤ count) :
    input.advance.tokens.length ≤ count - 1 := by
  rw [Input.length_advance]
  exact Nat.sub_le_sub_right hlength 1

theorem settles_advance {next : Unit → Attempt α} (hnext : (next ()).Settles (count - 1)) :
    (advance >>= next).Settles count :=
  fun input rest hlength ↦ hnext input.advance rest (length_advance_le hlength)

theorem settles_expect {kind : Kind} {next : Unit → Attempt α}
    (hnext : (next ()).Settles (count - 1)) : (expect kind >>= next).Settles count := by
  intro input rest hlength
  rw [expect_bind_apply]
  split_ifs
  · exact hnext input.advance rest (length_advance_le hlength)
  · nofun

theorem settles_accept {kind : Kind} {next : Bool → Attempt α}
    (hyes : (next true).Settles (count - 1)) (hno : (next false).Settles count) :
    (accept kind >>= next).Settles count := by
  intro input rest hlength
  rw [accept_bind_apply]
  split_ifs
  · exact hyes input.advance rest (length_advance_le hlength)
  · exact hno input rest hlength

theorem Settles.optional {construct : Attempt α} (h : construct.Settles count) :
    construct.optional.Settles count := by
  intro input rest hlength
  rw [Attempt.optional]
  cases houtcome : construct input with
  | done value middle | failed middle => nofun
  | cutOff middle => exact absurd houtcome (h input middle hlength)

theorem Settles.reportSilence {construct : Attempt α} (h : construct.Settles count) :
    (reportSilence construct).Settles count := by
  intro input rest hlength
  rw [Parser.reportSilence]
  cases houtcome : construct input with
  | done value middle => nofun
  | failed middle =>
    dsimp only
    split_ifs <;> nofun
  | cutOff middle => exact absurd houtcome (h input middle hlength)

/-! ### Loops -/

theorem Settles.statementsToBrace {statement : Attempt Stmt} (h : statement.Settles count)
    (hforward : statement.Forward) (bound : List Token) (done : List Stmt) :
    (statementsToBrace statement bound done).Settles count := by
  induction bound generalizing done with
  | nil => exact settles_refuse _
  | cons first bound ih =>
    rw [Parser.statementsToBrace]
    refine settles_current fun token ↦ ?_
    split
    · exact settles_pure _
    · exact settles_refuse _
    · refine h.optional.bind hforward.optional.forward fun found ↦ ?_
      exact settles_advance ((ih _).mono (Nat.sub_le _ _))

theorem settles_namesAfterComma (bound : List Token) (done : List Identifier) :
    (namesAfterComma bound done).Settles count := by
  induction bound generalizing done count with
  | nil => exact settles_pure _
  | cons first bound ih =>
    rw [namesAfterComma]
    exact settles_accept (settles_expect (settles_current fun token ↦ ih _)) (settles_pure _)

theorem settles_parameters : parameters.Settles count := by
  rw [parameters]
  refine settles_accept (settles_pure _) (settles_expect (settles_current fun token ↦ ?_))
  refine settles_remaining fun bound ↦ ?_
  exact (settles_namesAfterComma _ _).bind (orderly_namesAfterComma _ _).forward fun names ↦
    settles_expect (settles_pure _)

theorem Settles.itemsAfterComma {item : Attempt Expr} (h : item.Settles count)
    (hforward : item.Forward) (bound : List Token) (done : List Expr) :
    (itemsAfterComma item bound done).Settles count := by
  induction bound generalizing done with
  | nil => exact settles_pure _
  | cons first bound ih =>
    rw [Parser.itemsAfterComma]
    refine settles_accept (settles_advance ?_) (settles_pure _)
    have hrest : (item >>= fun next ↦ Parser.itemsAfterComma item bound (next :: done)).Settles
        count := h.bind hforward fun next ↦ ih _
    exact hrest.mono (by omega)

/-- Each key and each value stands behind a token. -/
theorem Settles.pairsToBrace {item : Attempt Expr} (h : item.Settles count)
    (hforward : item.Forward) (bound : List Token) (done : List (Expr × Expr)) :
    (pairsToBrace item bound done).Settles (count + 1) := by
  induction bound generalizing done with
  | nil => exact settles_pure _
  | cons first bound ih =>
    have hmore (done : List (Expr × Expr)) : (Parser.pairsToBrace item bound done).Settles count :=
      (ih done).mono (Nat.le_succ _)
    rw [Parser.pairsToBrace]
    refine settles_peekKind fun kind ↦ ?_
    split_ifs
    · exact settles_pure _
    · refine settles_advance (h.bind hforward fun key ↦ settles_expect (settles_advance ?_))
      refine (h.mono (by omega)).bind hforward fun value ↦ settles_peekKind fun kind ↦ ?_
      split_ifs
      · exact settles_expect ((hmore _).mono (by omega))
      · exact (hmore _).mono (by omega)

theorem settles_climb {extend : Expr → Attempt Expr} (h : ∀ left, (extend left).Settles count)
    (hforward : ∀ left, (extend left).Forward) (floor : Nat) (bound : List Token) (left : Expr) :
    (climb extend floor bound left).Settles count := by
  induction bound generalizing left with
  | nil => exact settles_pure _
  | cons first bound ih =>
    rw [climb]
    refine settles_peekKind fun kind ↦ ?_
    split_ifs
    · have hrest : (extend left >>= fun left ↦ climb extend floor bound left).Settles count :=
        (h left).bind (hforward left) fun left ↦ ih left
      exact settles_advance (hrest.mono (Nat.sub_le _ _))
    · exact settles_pure _

theorem settles_integerLiteral (token : Token) : (integerLiteral token).Settles count := by
  rw [integerLiteral]
  split
  · split_ifs
    · exact settles_pure _
    · exact settles_refuse _
  · exact settles_refuse _

theorem settles_booleanLiteral (token : Token) : (booleanLiteral token).Settles count := by
  rw [booleanLiteral]
  split_ifs
  · exact settles_pure _
  · exact settles_pure _
  · exact settles_refuse _

end Attempt

/-! ### The parsing functions -/

open Attempt

/-- Expressions settle on `count` tokens when six nested calls are allowed for each of them, and one
more. -/
def ExpressionsSettle (count : Nat) : Prop :=
  ∀ depth floor, 6 * count + 1 ≤ depth → (expression depth floor).Settles count

namespace ExpressionsSettle

variable {count depth : Nat}

/-! What stands on the same tokens as an expression. -/

theorem required (h : ExpressionsSettle count) (hdepth : 6 * count + 2 ≤ depth) :
    (required depth).Settles count := by
  obtain ⟨depth, rfl⟩ := Nat.exists_eq_succ_of_ne_zero (show depth ≠ 0 by omega)
  rw [Parser.required]
  exact (h depth _ (by omega)).reportSilence

theorem letStatement (h : ExpressionsSettle count) (hdepth : 6 * count + 2 ≤ depth) :
    (letStatement depth).Settles count := by
  obtain ⟨depth, rfl⟩ := Nat.exists_eq_succ_of_ne_zero (show depth ≠ 0 by omega)
  rw [Parser.letStatement]
  refine settles_current fun token ↦ settles_expect (settles_current fun name ↦ ?_)
  refine settles_expect (settles_advance ?_)
  have hvalue := (h depth lowest (by omega)).optional
  refine (hvalue.mono (by omega)).bind ((orderlyAt depth).expression _).optional.forward ?_
  intro found
  cases found with
  | none => exact settles_refuse _
  | some value => exact settles_accept (settles_pure _) (settles_pure _)

theorem returnStatement (h : ExpressionsSettle count) (hdepth : 6 * count + 2 ≤ depth) :
    (returnStatement depth).Settles count := by
  obtain ⟨depth, rfl⟩ := Nat.exists_eq_succ_of_ne_zero (show depth ≠ 0 by omega)
  rw [Parser.returnStatement]
  refine settles_current fun token ↦ settles_advance ?_
  have hvalue := (h depth lowest (by omega)).optional
  refine (hvalue.mono (by omega)).bind ((orderlyAt depth).expression _).optional.forward ?_
  intro found
  cases found with
  | none => exact settles_refuse _
  | some value => exact settles_accept (settles_pure _) (settles_pure _)

theorem expressionStatement (h : ExpressionsSettle count) (hdepth : 6 * count + 3 ≤ depth) :
    (expressionStatement depth).Settles count := by
  obtain ⟨depth, rfl⟩ := Nat.exists_eq_succ_of_ne_zero (show depth ≠ 0 by omega)
  rw [Parser.expressionStatement]
  refine settles_current fun token ↦ ?_
  exact (h.required (by omega)).bind (orderlyAt depth).required.forward fun value ↦
    settles_accept (settles_pure _) (settles_pure _)

theorem statement (h : ExpressionsSettle count) (hdepth : 6 * count + 4 ≤ depth) :
    (statement depth).Settles count := by
  obtain ⟨depth, rfl⟩ := Nat.exists_eq_succ_of_ne_zero (show depth ≠ 0 by omega)
  rw [Parser.statement]
  refine settles_current fun token ↦ ?_
  split
  · exact h.letStatement (by omega)
  · exact h.returnStatement (by omega)
  · exact settles_failed
  · exact h.expressionStatement (by omega)

theorem block (h : ExpressionsSettle count) (hdepth : 6 * count + 5 ≤ depth) :
    (block depth).Settles count := by
  obtain ⟨depth, rfl⟩ := Nat.exists_eq_succ_of_ne_zero (show depth ≠ 0 by omega)
  have hstatement : (Parser.statement depth).Settles count := h.statement (by omega)
  have hforward := (orderlyAt depth).statement
  rw [Parser.block]
  refine settles_current fun token ↦ settles_advance (settles_remaining fun bound ↦ ?_)
  exact ((hstatement.statementsToBrace hforward _ _).mono (Nat.sub_le _ _)).bind
    (hforward.statementsToBrace _ _).forward fun statements ↦ settles_pure _

/-! What has its first token in front of an expression. -/

theorem unary (h : ExpressionsSettle count) (hdepth : 6 * count + 2 ≤ depth) (token : Token) :
    (unary depth token).Settles (count + 1) := by
  obtain ⟨depth, rfl⟩ := Nat.exists_eq_succ_of_ne_zero (show depth ≠ 0 by omega)
  rw [Parser.unary]
  refine settles_advance ((h depth _ (by omega)).optional.bind ?_ fun found ↦ ?_)
  · exact ((orderlyAt depth).expression _).optional.forward
  · cases found with
    | none => exact settles_refuse _
    | some right => exact settles_pure _

theorem binary (h : ExpressionsSettle count) (hdepth : 6 * count + 2 ≤ depth) (token : Token)
    (left : Expr) : (binary depth token left).Settles (count + 1) := by
  obtain ⟨depth, rfl⟩ := Nat.exists_eq_succ_of_ne_zero (show depth ≠ 0 by omega)
  rw [Parser.binary]
  refine settles_advance ((h depth _ (by omega)).optional.bind ?_ fun found ↦ ?_)
  · exact ((orderlyAt depth).expression _).optional.forward
  · cases found with
    | none => exact settles_refuse _
    | some right => exact settles_pure _

theorem grouped (h : ExpressionsSettle count) (hdepth : 6 * count + 3 ≤ depth) :
    (grouped depth).Settles (count + 1) := by
  obtain ⟨depth, rfl⟩ := Nat.exists_eq_succ_of_ne_zero (show depth ≠ 0 by omega)
  rw [Parser.grouped]
  exact settles_advance ((h.required (by omega)).bind (orderlyAt depth).required.forward
    fun inner ↦ settles_expect (settles_pure _))

theorem conditional (h : ExpressionsSettle count) (hdepth : 6 * count + 6 ≤ depth)
    (token : Token) : (conditional depth token).Settles (count + 1) := by
  obtain ⟨depth, rfl⟩ := Nat.exists_eq_succ_of_ne_zero (show depth ≠ 0 by omega)
  have hrequired : (Parser.required depth).Settles count := h.required (by omega)
  have hblock : (Parser.block depth).Settles count := h.block (by omega)
  rw [Parser.conditional]
  refine settles_expect (settles_advance ?_)
  refine (hrequired.mono (by omega)).bind (orderlyAt depth).required.forward fun condition ↦ ?_
  refine settles_expect (settles_expect ?_)
  refine (hblock.mono (by omega)).bind (orderlyAt depth).block.forward fun consequence ↦ ?_
  refine settles_accept (settles_expect ?_) (settles_pure _)
  exact (hblock.mono (by omega)).bind (orderlyAt depth).block.forward fun alternative ↦
    settles_pure _

theorem functionLiteral (h : ExpressionsSettle count) (hdepth : 6 * count + 6 ≤ depth)
    (token : Token) : (functionLiteral depth token).Settles (count + 1) := by
  obtain ⟨depth, rfl⟩ := Nat.exists_eq_succ_of_ne_zero (show depth ≠ 0 by omega)
  have hblock : (Parser.block depth).Settles count := h.block (by omega)
  rw [Parser.functionLiteral]
  refine settles_expect (settles_parameters.bind orderly_parameters.forward fun names ↦ ?_)
  refine settles_expect ?_
  exact (hblock.mono (by omega)).bind (orderlyAt depth).block.forward fun body ↦ settles_pure _

theorem items (h : ExpressionsSettle count) (hdepth : 6 * count + 3 ≤ depth) (close : Kind) :
    (items depth close).Settles (count + 1) := by
  obtain ⟨depth, rfl⟩ := Nat.exists_eq_succ_of_ne_zero (show depth ≠ 0 by omega)
  have hrequired : (Parser.required depth).Settles count := h.required (by omega)
  have hforward := (orderlyAt depth).required
  rw [Parser.items]
  refine settles_accept (settles_pure _) (settles_advance ?_)
  refine hrequired.bind hforward.forward fun first ↦ settles_remaining fun bound ↦ ?_
  exact (hrequired.itemsAfterComma hforward.forward _ _).bind
    (hforward.itemsAfterComma _ _).forward fun found ↦ settles_expect (settles_pure _)

theorem call (h : ExpressionsSettle count) (hdepth : 6 * count + 4 ≤ depth) (token : Token)
    (callee : Expr) : (call depth token callee).Settles (count + 1) := by
  obtain ⟨depth, rfl⟩ := Nat.exists_eq_succ_of_ne_zero (show depth ≠ 0 by omega)
  rw [Parser.call]
  exact (h.items (by omega) _).bind ((orderlyAt depth).items _).forward fun arguments ↦
    settles_pure _

theorem arrayLiteral (h : ExpressionsSettle count) (hdepth : 6 * count + 4 ≤ depth)
    (token : Token) : (arrayLiteral depth token).Settles (count + 1) := by
  obtain ⟨depth, rfl⟩ := Nat.exists_eq_succ_of_ne_zero (show depth ≠ 0 by omega)
  rw [Parser.arrayLiteral]
  exact (h.items (by omega) _).bind ((orderlyAt depth).items _).forward fun elements ↦
    settles_pure _

theorem index (h : ExpressionsSettle count) (hdepth : 6 * count + 3 ≤ depth) (token : Token)
    (left : Expr) : (index depth token left).Settles (count + 1) := by
  obtain ⟨depth, rfl⟩ := Nat.exists_eq_succ_of_ne_zero (show depth ≠ 0 by omega)
  rw [Parser.index]
  exact settles_advance ((h.required (by omega)).bind (orderlyAt depth).required.forward
    fun place ↦ settles_expect (settles_pure _))

theorem hashLiteral (h : ExpressionsSettle count) (hdepth : 6 * count + 3 ≤ depth)
    (token : Token) : (hashLiteral depth token).Settles (count + 1) := by
  obtain ⟨depth, rfl⟩ := Nat.exists_eq_succ_of_ne_zero (show depth ≠ 0 by omega)
  have hrequired : (Parser.required depth).Settles count := h.required (by omega)
  have hforward := (orderlyAt depth).required
  rw [Parser.hashLiteral]
  refine settles_remaining fun bound ↦ ?_
  exact (hrequired.pairsToBrace hforward.forward _ _).bind (hforward.pairsToBrace _ _).forward
    fun pairs ↦ settles_expect (settles_pure _)

theorem start (h : ExpressionsSettle count) (hdepth : 6 * count + 6 ≤ depth) (token : Token) :
    (start depth token).Settles (count + 1) := by
  rw [Parser.start]
  split
  · exact settles_pure _
  · exact settles_integerLiteral token
  · exact settles_pure _
  · exact settles_booleanLiteral token
  · exact settles_booleanLiteral token
  · exact h.unary (by omega) token
  · exact h.unary (by omega) token
  · exact h.grouped (by omega)
  · exact h.conditional hdepth token
  · exact h.functionLiteral hdepth token
  · exact h.arrayLiteral (by omega) token
  · exact h.hashLiteral (by omega) token
  · exact settles_failed

theorem extend (h : ExpressionsSettle count) (hdepth : 6 * count + 6 ≤ depth) (left : Expr) :
    (extend depth left).Settles (count + 1) := by
  rw [Parser.extend]
  refine settles_current fun token ↦ ?_
  split
  · exact h.call (by omega) token left
  · exact h.index (by omega) token left
  · exact h.binary (by omega) token left

/-- At the end of the tokens no expression starts. -/
theorem zero : ExpressionsSettle 0 := by
  intro depth floor hdepth input rest hlength
  obtain ⟨depth, rfl⟩ := Nat.exists_eq_succ_of_ne_zero (show depth ≠ 0 by omega)
  obtain ⟨tokens, problems⟩ := input
  obtain rfl := List.eq_nil_of_length_eq_zero (Nat.le_zero.mp hlength)
  rw [expression_succ]
  nofun

theorem succ (h : ExpressionsSettle count) : ExpressionsSettle (count + 1) := by
  intro depth floor hdepth input rest hlength
  obtain ⟨depth, rfl⟩ := Nat.exists_eq_succ_of_ne_zero (show depth ≠ 0 by omega)
  have horderly := orderlyAt depth
  rw [expression_succ]
  refine ((h.start (by omega) input.current).bind (horderly.start_forward _) fun left ↦ ?_)
    input rest hlength
  refine settles_remaining fun bound ↦ ?_
  exact settles_climb (h.extend (by omega)) (fun left ↦ (horderly.extend_orderly left).forward)
    floor bound left

end ExpressionsSettle

theorem expressionsSettle (count : Nat) : ExpressionsSettle count := by
  induction count with
  | zero => exact ExpressionsSettle.zero
  | succ count ih => exact ih.succ

/-- The nested calls that are enough for a number of tokens. -/
def enoughDepth (count : Nat) : Nat :=
  6 * count + 4

theorem statement_settles {count depth : Nat} (hdepth : enoughDepth count ≤ depth) :
    (statement depth).Settles count :=
  (expressionsSettle count).statement hdepth

end MonkeyLang.Parser
