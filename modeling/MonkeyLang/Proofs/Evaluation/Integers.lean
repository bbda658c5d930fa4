import Mathlib.Tactic
import MonkeyLang.Proofs.Evaluation.Contents
import MonkeyLang.Proofs.Evaluation.Started
import MonkeyLang.Proofs.Program.Parsed

/-!
# Integers stay within 64 bits

Three things make an integer: a literal, an operator, and the builtin function `len`. A literal that
is parsed has no sign and is refused if it is too large; an operator gives an error in the place of
a result that does not fit; only `len` gives the number of items that it finds as it is. So in a
session in which `len` never finds more items than 64 bits can count, every integer of a result and
of a binding fits, wherever it stands inside of other values.

What `len` finds depends on the run. The activations of a program say which calls there are
(`Starts`), and `Activation.size?` what is found in one of them; the invariant is then carried from
the activations that another one starts to that one, by induction on how many may still follow.
-/

set_option autoImplicit false

namespace MonkeyLang

/-- An integer of 64 bits with a sign. -/
def IsInt64 (n : Int) : Prop :=
  int64Min ≤ n ∧ n ≤ int64Max

instance : DecidablePred IsInt64 :=
  fun n ↦ inferInstanceAs (Decidable (int64Min ≤ n ∧ n ≤ int64Max))

theorem isInt64_of_size {size : Nat} (hsize : (size : Int) ≤ int64Max) : IsInt64 size := by
  refine ⟨?_, hsize⟩
  rw [int64Min]
  omega

/-! ### Literals -/

/-- Not an integer literal that does not fit. -/
def Node.FitsInt64 : Node → Prop
  | .expression (.integer _ value) => IsInt64 value
  | _ => True

/-- A number that agrees with its token has no sign and is not too large. -/
theorem Node.Agrees.fitsInt64 {node : Node} (h : node.Agrees) : node.FitsInt64 := by
  unfold Node.FitsInt64
  split
  · obtain ⟨literal, -, -, hnonneg, hmax⟩ := h
    refine ⟨?_, hmax⟩
    rw [int64Min]
    omega
  · trivial

/-- The literals of a source text fit, whatever diagnostics there are. -/
theorem Program.every_fitsInt64 (source : String) :
    ∀ statement ∈ (Program.ofSource source).program.statements,
      statement.Every Node.FitsInt64 := by
  intro statement hmem
  have hcoherent := Program.ofTokens_coherent Parser.depthLimit source statement hmem
  exact statement.every_mono (fun _ ↦ Node.Agrees.fitsInt64) (statement.every_agrees hcoherent)

/-! ### Values -/

namespace Value

/-- Not an integer that does not fit. -/
def FitsInt64 : Value → Prop
  | .integer n => IsInt64 n
  | _ => True

instance : DecidablePred FitsInt64
  | .integer n => inferInstanceAs (Decidable (IsInt64 n))
  | .string _ | .boolean _ | .null | .returned _ | .function _ | .array _ | .hash _ | .builtin _
  | .error _ => inferInstanceAs (Decidable True)

/-- As `FitsInt64`, and not a function with a literal that does not fit. -/
def YieldsInt64 : Value → Prop
  | .integer n => IsInt64 n
  | .function closure => closure.body.Every Node.FitsInt64
  | _ => True

theorem YieldsInt64.fitsInt64 {value : Value} (h : value.YieldsInt64) : value.FitsInt64 := by
  cases value with
  | integer n => exact h
  | _ => trivial

theorem yieldsInt64_ofInt (n : Int) : (ofInt n).YieldsInt64 := by
  rw [ofInt]
  split_ifs with hrange
  · trivial
  · rw [not_or, not_lt, not_lt] at hrange
    exact hrange

theorem yieldsInt64_unary (operator : String) (right : Value) :
    (unary operator right).YieldsInt64 := by
  unfold unary
  split
  · trivial
  · exact yieldsInt64_ofInt _
  · trivial

theorem yieldsInt64_binary (operator : String) (left right : Value) :
    (binary operator left right).YieldsInt64 := by
  unfold binary
  split
  · unfold integerBinary
    split
    · exact yieldsInt64_ofInt _
    · exact yieldsInt64_ofInt _
    · exact yieldsInt64_ofInt _
    · split
      · trivial
      · exact yieldsInt64_ofInt _
    all_goals trivial
  · unfold booleanBinary
    split <;> trivial
  · unfold stringBinary
    split <;> trivial
  · trivial

theorem yieldsInt64_index {left : Value} (hleft : left.All YieldsInt64) (place : Value) :
    (index left place).All YieldsInt64 := by
  rcases all_index_or_error trivial hleft place with hall | ⟨failure, herror⟩
  · exact hall
  · rw [herror]
    exact all_of_isPlain rfl trivial

theorem all_yieldsInt64_array_iff {elements : List Value} :
    (array elements).All YieldsInt64 ↔ ∀ element ∈ elements, element.All YieldsInt64 :=
  all_array_iff.trans (and_iff_right trivial)

end Value

/-- Every binding holds values that yield integers which fit. -/
def Scopes.YieldInt64 : Scopes → Prop :=
  Scopes.AllBindings (Value.All Value.YieldsInt64)

open Evaluation

/-! ### Activations -/

namespace Evaluation

/-- Every node that belongs to the task has the property. -/
def Task.Every (p : Node → Prop) : Task → Prop
  | .program statements | .executeEach statements => ∀ statement ∈ statements, statement.Every p
  | .execute statement => statement.Every p
  | .evaluate expression => expression.Every p
  | .evaluateEach expressions => ∀ expression ∈ expressions, expression.Every p
  | .conditional condition consequence alternative =>
    condition.Every p ∧ consequence.Every p ∧ ∀ block ∈ alternative, block.Every p
  | .call callee arguments => callee.Every p ∧ ∀ argument ∈ arguments, argument.Every p
  | .hashLiteral pairs => ∀ pair ∈ pairs, pair.1.Every p ∧ pair.2.Every p

namespace Activation

/-- The number of items that `len` finds, if the activation is a call of it. -/
def size? (settings : Settings) : Activation → Option Nat
  | ⟨.call callee arguments, depth + 1, frame, machine⟩ =>
    match Evaluation.evaluate settings depth callee frame machine with
    | .done (.builtin builtin) middle =>
      match Evaluation.evaluateEach settings depth arguments frame middle with
      | .done (.ok values) _ => builtin.size? values
      | _ => none
    | _ => none
  | _ => none

/-- In none of the activations on the way does `len` find more items than fit. -/
def SizesFit (settings : Settings) (activation : Activation) : Prop :=
  ∀ inner, Relation.ReflTransGen (Starts settings) activation inner →
    ∀ size ∈ inner.size? settings, (size : Int) ≤ int64Max

/-- The variables that the activation leaves have the invariant, and the values that it gives have
the property. -/
def Satisfies (settings : Settings) (invariant : Scopes → Prop) (property : Value → Prop) :
    Activation → Prop
  | ⟨.program statements, _, frame, machine⟩ =>
    (programResult settings frame none statements machine).Satisfies invariant
      fun result ↦ ∀ value ∈ result, property value
  | ⟨.execute statement, depth, frame, machine⟩ =>
    (execute settings depth statement frame machine).Satisfies invariant
      fun result ↦ ∀ value ∈ result, property value
  | ⟨.executeEach statements, depth, frame, machine⟩ =>
    (executeEach settings depth statements frame machine).Satisfies invariant
      fun result ↦ ∀ value ∈ result, property value
  | ⟨.evaluate expression, depth, frame, machine⟩ =>
    (evaluate settings depth expression frame machine).Satisfies invariant property
  | ⟨.evaluateEach expressions, depth, frame, machine⟩ =>
    (evaluateEach settings depth expressions frame machine).Satisfies invariant
      fun result ↦ ∀ found, result = .ok found → ∀ value ∈ found, property value
  | ⟨.conditional condition consequence alternative, depth, frame, machine⟩ =>
    (conditional settings depth condition consequence alternative frame machine).Satisfies
      invariant property
  | ⟨.call callee arguments, depth, frame, machine⟩ =>
    (call settings depth callee arguments frame machine).Satisfies invariant property
  | ⟨.hashLiteral pairs, depth, frame, machine⟩ =>
    (hashLiteral settings depth pairs frame machine).Satisfies invariant property

/-- If its literals fit and the variables at its start yield integers that fit, so do the variables
and the values at its end. -/
def StaysInt64 (settings : Settings) (activation : Activation) : Prop :=
  activation.task.Every Node.FitsInt64 → activation.machine.scopes.YieldInt64 →
    activation.Satisfies settings Scopes.YieldInt64 (Value.All Value.YieldsInt64)

end Activation

/-- All activations that are started directly stay within 64 bits. -/
def StartsInt64 (settings : Settings) (outer : Activation) : Prop :=
  ∀ inner, Starts settings outer inner → inner.StaysInt64 settings

variable {settings : Settings} {depth : Nat} {frame : FrameId} {machine : Machine}

theorem yieldsInt64_error (failure : Failure) : (Value.error failure).All Value.YieldsInt64 :=
  Value.all_of_isPlain rfl trivial

theorem yieldsInt64_orNull {result : Option Value}
    (h : ∀ value ∈ result, value.All Value.YieldsInt64) :
    (orNull result).All Value.YieldsInt64 := by
  cases result with
  | none => exact Value.all_of_isPlain rfl trivial
  | some value => exact h value rfl

theorem yieldsInt64_callResult {result : Option Value}
    (h : ∀ value ∈ result, value.All Value.YieldsInt64) :
    (callResult result).All Value.YieldsInt64 := by
  unfold callResult
  split
  · exact (Value.all_returned_iff.mp (h _ rfl)).2
  · exact yieldsInt64_orNull h

theorem satisfies_identifier (name : String) (hmachine : machine.scopes.YieldInt64) :
    (identifier settings name frame machine).Satisfies Scopes.YieldInt64
      (Value.All Value.YieldsInt64) := by
  have hget : (Run.getVariable frame name machine).Satisfies Scopes.YieldInt64
      fun result ↦ ∀ value ∈ result, value.All Value.YieldsInt64 :=
    ⟨hmachine, fun _ hfound ↦ hmachine.get? hfound⟩
  rw [identifier]
  refine Run.satisfies_bind hget fun result after _ hafter hresult ↦ ?_
  cases result with
  | some value => exact ⟨hafter, hresult value rfl⟩
  | none =>
    dsimp only
    cases Entries.get? settings.builtins name with
    | some builtin => exact ⟨hafter, Value.all_of_isPlain rfl trivial⟩
    | none => exact ⟨hafter, yieldsInt64_error _⟩

theorem staysInt64_evaluate {expression : Expr}
    (h : StartsInt64 settings ⟨.evaluate expression, depth, frame, machine⟩) :
    Activation.StaysInt64 settings ⟨.evaluate expression, depth, frame, machine⟩ := by
  intro hnodes hmachine
  show (evaluate settings depth expression frame machine).Satisfies _ _
  cases depth with
  | zero =>
    rw [evaluate]
    exact hmachine
  | succ depth =>
    cases expression with
    | integer origin value =>
      rw [evaluate]
      exact ⟨hmachine, hnodes⟩
    | string | boolean =>
      rw [evaluate]
      exact ⟨hmachine, Value.all_of_isPlain rfl trivial⟩
    | identifier name =>
      rw [evaluate]
      exact satisfies_identifier name.value hmachine
    | function origin parameters body =>
      rw [evaluate]
      exact ⟨hmachine, Value.all_function_iff.mpr hnodes.2⟩
    | unary origin operator right =>
      rw [evaluate]
      refine Run.satisfies_andThen (h _ .operand hnodes.2 hmachine) yieldsInt64_error
        fun value after _ _ hafter _ ↦ ?_
      exact ⟨hafter, Value.all_of_isPlain (Value.isPlain_unary _ _) (Value.yieldsInt64_unary _ _)⟩
    | binary origin left operator right =>
      rw [evaluate]
      refine Run.satisfies_andThen (h _ .left hnodes.2.1 hmachine) yieldsInt64_error
        fun a middle hleft ha hmiddle _ ↦ ?_
      refine Run.satisfies_andThen (h _ (.right hleft ha) hnodes.2.2 hmiddle) yieldsInt64_error
        fun b after _ _ hafter _ ↦ ?_
      exact ⟨hafter,
        Value.all_of_isPlain (Value.isPlain_binary _ _ _) (Value.yieldsInt64_binary _ _ _)⟩
    | index origin left place =>
      rw [evaluate]
      refine Run.satisfies_andThen (h _ .indexed hnodes.2.1 hmachine) yieldsInt64_error
        fun a middle hleft ha hmiddle hfound ↦ ?_
      refine Run.satisfies_andThen (h _ (.place hleft ha) hnodes.2.2 hmiddle) yieldsInt64_error
        fun b after _ _ hafter _ ↦ ?_
      exact ⟨hafter, Value.yieldsInt64_index hfound b⟩
    | conditional origin condition consequence alternative =>
      rw [evaluate]
      refine h _ .conditional ?_ hmachine
      cases alternative with
      | none => exact ⟨hnodes.2.1, hnodes.2.2, by simp⟩
      | some block =>
        refine ⟨hnodes.2.1, hnodes.2.2.1, ?_⟩
        rintro other ⟨⟩
        exact hnodes.2.2.2
    | call origin callee arguments =>
      rw [evaluate]
      exact h _ .call ⟨hnodes.2.1, Expr.everyIn_iff.mp hnodes.2.2⟩ hmachine
    | array origin elements =>
      rw [evaluate]
      refine Run.satisfies_bind (h _ .array (Expr.everyIn_iff.mp hnodes.2) hmachine)
        fun result after _ hafter hresult ↦ ?_
      cases result with
      | error failure => exact ⟨hafter, yieldsInt64_error failure⟩
      | ok values => exact ⟨hafter, Value.all_yieldsInt64_array_iff.mpr (hresult values rfl)⟩
    | hash origin pairs =>
      rw [evaluate]
      exact h _ .hash (Expr.everyInPairs_iff.mp hnodes.2) hmachine

theorem staysInt64_evaluateEach {expressions : List Expr}
    (h : StartsInt64 settings ⟨.evaluateEach expressions, depth, frame, machine⟩) :
    Activation.StaysInt64 settings ⟨.evaluateEach expressions, depth, frame, machine⟩ := by
  intro hnodes hmachine
  show (evaluateEach settings depth expressions frame machine).Satisfies _ _
  cases depth with
  | zero =>
    rw [evaluateEach]
    exact hmachine
  | succ depth =>
    rw [evaluateEach]
    refine satisfies_values (fun before item rest middle heq hbefore ↦ ?_) hmachine
    subst heq
    exact h _ (.item hbefore) (hnodes item (by simp))

theorem staysInt64_hashLiteral {pairs : List (Expr × Expr)}
    (h : StartsInt64 settings ⟨.hashLiteral pairs, depth, frame, machine⟩) :
    Activation.StaysInt64 settings ⟨.hashLiteral pairs, depth, frame, machine⟩ := by
  intro hnodes hmachine
  show (hashLiteral settings depth pairs frame machine).Satisfies _ _
  cases depth with
  | zero =>
    rw [hashLiteral]
    exact hmachine
  | succ depth =>
    have hhash (entries : List (Key × Value)) (hentries : ∀ entry ∈ entries,
        entry.1.toValue.All Value.YieldsInt64 ∧ entry.2.All Value.YieldsInt64) :
        (Value.hash entries).All Value.YieldsInt64 :=
      Value.all_hash_iff.mpr ⟨trivial, fun entry hentry ↦ (hentries entry hentry).imp_left (·.self)⟩
    rw [hashLiteral]
    refine satisfies_hashPairs (fun before pair rest middle heq hbefore ↦ ?_) yieldsInt64_error
      hhash (List.forall_mem_nil _) hmachine
    subst heq
    obtain ⟨hkey, hvalue⟩ := hnodes pair (by simp)
    exact ⟨h _ (.key hbefore) hkey, fun key after hrun hsome ↦
      h _ (.value hbefore hrun hsome) hvalue⟩

theorem staysInt64_conditional {condition : Expr} {consequence : Block} {alternative : Option Block}
    (h : StartsInt64 settings
      ⟨.conditional condition consequence alternative, depth, frame, machine⟩) :
    Activation.StaysInt64 settings
      ⟨.conditional condition consequence alternative, depth, frame, machine⟩ := by
  intro hnodes hmachine
  obtain ⟨hcondition, hconsequence, halternative⟩ := hnodes
  show (conditional settings depth condition consequence alternative frame machine).Satisfies _ _
  cases depth with
  | zero =>
    rw [conditional]
    exact hmachine
  | succ depth =>
    rw [conditional.eq_def]
    refine Run.satisfies_andThen (h _ .condition hcondition hmachine) yieldsInt64_error
      fun found middle hfound herror hmiddle _ ↦ ?_
    refine Run.satisfies_bind (Run.ensures_note _ _ _ _ middle hmiddle)
      fun _ noted hnote hnoted _ ↦ ?_
    have hbranch {block : Block}
        (hblock : (execute settings depth (.block block) frame noted).Satisfies Scopes.YieldInt64
          fun result ↦ ∀ value ∈ result, value.All Value.YieldsInt64) :
        ((execute settings depth (.block block) frame >>= fun result ↦ pure (orNull result))
          noted).Satisfies Scopes.YieldInt64 (Value.All Value.YieldsInt64) :=
      Run.satisfies_bind hblock fun _ _ _ hafter hresult ↦ ⟨hafter, yieldsInt64_orNull hresult⟩
    cases htruthy : found.truthy with
    | true => exact hbranch (h _ (.consequence hfound herror hnote htruthy) hconsequence hnoted)
    | false =>
      cases alternative with
      | none => exact ⟨hnoted, Value.all_of_isPlain rfl trivial⟩
      | some block =>
        exact hbranch
          (h _ (.alternative hfound herror hnote htruthy) (halternative block rfl) hnoted)

/-- The only step that depends on what `len` finds. -/
theorem staysInt64_call {callee : Expr} {arguments : List Expr}
    (h : StartsInt64 settings ⟨.call callee arguments, depth, frame, machine⟩)
    (hsize : ∀ size ∈ Activation.size? settings ⟨.call callee arguments, depth, frame, machine⟩,
      (size : Int) ≤ int64Max) :
    Activation.StaysInt64 settings ⟨.call callee arguments, depth, frame, machine⟩ := by
  intro hnodes hmachine
  obtain ⟨hcallee, harguments⟩ := hnodes
  show (call settings depth callee arguments frame machine).Satisfies _ _
  cases depth with
  | zero =>
    rw [call]
    exact hmachine
  | succ depth =>
    rw [call]
    refine Run.satisfies_andThen (h _ .callee hcallee hmachine) yieldsInt64_error
      fun found middle hfound _ hmiddle hyields ↦ ?_
    cases found with
    | function closure =>
      have hopened : (Run.openFrame closure.frame middle).Satisfies Scopes.YieldInt64
          fun _ ↦ True := ⟨hmiddle.newFrame _, trivial⟩
      refine Run.satisfies_bind hopened fun inner opened hopen hopened _ ↦ ?_
      refine Run.satisfies_bind (satisfies_bindArguments
        (fun before pair rest reached heq hbefore ↦ h _ (.argument hfound hopen heq hbefore) ?_)
        (fun name value scopes hvalue hscopes ↦ hscopes.set inner name hvalue) hopened)
        fun result bound hbind hbound _ ↦ ?_
      · exact harguments _ (List.of_mem_zip (heq ▸ List.mem_append_right _ (.head _))).2
      cases result with
      | some failure => exact ⟨hbound, yieldsInt64_error failure⟩
      | none =>
        refine Run.satisfies_bind (Run.ensures_note _ _ _ _ bound hbound)
          fun _ noted hnote hnoted _ ↦ ?_
        have hbody : closure.body.Every Node.FitsInt64 := Value.all_function_iff.mp hyields
        exact Run.satisfies_bind (h _ (.body hfound hopen hbind hnote) hbody hnoted)
          fun _ _ _ hafter hresult ↦ ⟨hafter, yieldsInt64_callResult hresult⟩
    | builtin builtin =>
      refine Run.satisfies_bind (h _ (.arguments hfound) harguments hmiddle)
        fun result after hvalues hafter hresult ↦ ?_
      cases result with
      | error failure => exact ⟨hafter, yieldsInt64_error failure⟩
      | ok values =>
        refine Run.satisfies_bind (Run.ensures_note _ _ _ _ after hafter)
          fun _ noted _ hnoted _ ↦ ?_
        -- The call is the one in which the activation finds its size.
        have hfits : ∀ size ∈ builtin.size? values, (size : Int) ≤ int64Max := by
          simpa only [Activation.size?, hfound, hvalues] using hsize
        exact Builtin.ensures_call builtin (hresult values rfl)
          (fun size hmem ↦ Value.all_of_isPlain rfl (isInt64_of_size (hfits size hmem)))
          (Value.all_of_isPlain rfl trivial) yieldsInt64_error
          (fun _ ↦ Value.all_yieldsInt64_array_iff) noted hnoted
    | _ => exact ⟨hmiddle, yieldsInt64_error _⟩

theorem staysInt64_execute {statement : Stmt}
    (h : StartsInt64 settings ⟨.execute statement, depth, frame, machine⟩) :
    Activation.StaysInt64 settings ⟨.execute statement, depth, frame, machine⟩ := by
  intro hnodes hmachine
  have hsome {value : Value} (hvalue : value.All Value.YieldsInt64) :
      ∀ found ∈ some value, found.All Value.YieldsInt64 := by
    rintro found ⟨⟩
    exact hvalue
  show (execute settings depth statement frame machine).Satisfies _ _
  cases depth with
  | zero =>
    rw [execute]
    exact hmachine
  | succ depth =>
    cases statement with
    | expression origin expression =>
      rw [execute]
      exact Run.satisfies_bind (h _ .expression hnodes.2 hmachine)
        fun value after _ hafter hvalue ↦ ⟨hafter, hsome hvalue⟩
    | block block =>
      obtain ⟨origin, statements⟩ := block
      rw [execute]
      exact h _ .block (Stmt.everyIn_iff.mp hnodes.2) hmachine
    | returning origin expression =>
      rw [execute]
      refine Run.satisfies_bind (h _ .returned hnodes.2 hmachine)
        fun value after _ hafter hvalue ↦ ?_
      cases value with
      | error failure => exact ⟨hafter, hsome hvalue⟩
      | _ => exact ⟨hafter, hsome (Value.all_returned_iff.mpr ⟨trivial, hvalue⟩)⟩
    | binding origin name expression =>
      rw [execute]
      refine Run.satisfies_bind (h _ .bound hnodes.2 hmachine)
        fun value after _ hafter hvalue ↦ ?_
      have hbound : (do
          Run.setVariable frame name.value value
          noteBinding settings (some depth) name.value value
          return none : Run (Option Value)).Ensures Scopes.YieldInt64
            fun result ↦ ∀ value ∈ result, value.All Value.YieldsInt64 :=
        .bind (Run.ensures_setVariable fun _ hscopes ↦ hscopes.set frame name.value hvalue)
          fun _ _ ↦ .bind (Run.ensures_note _ _ _ _) fun _ _ ↦ Run.ensures_pure (by simp)
      cases value with
      | error failure => exact ⟨hafter, hsome hvalue⟩
      | _ => exact hbound after hafter

theorem staysInt64_executeEach {statements : List Stmt}
    (h : StartsInt64 settings ⟨.executeEach statements, depth, frame, machine⟩) :
    Activation.StaysInt64 settings ⟨.executeEach statements, depth, frame, machine⟩ := by
  intro hnodes hmachine
  show (executeEach settings depth statements frame machine).Satisfies _ _
  cases depth with
  | zero =>
    rw [executeEach]
    exact hmachine
  | succ depth =>
    rw [executeEach]
    refine satisfies_runEach (fun before statement rest middle heq hbefore ↦ ?_) (by simp) hmachine
    subst heq
    exact h _ (.blockStatement hbefore) (hnodes statement (by simp))

theorem staysInt64_program {statements : List Stmt}
    (h : StartsInt64 settings ⟨.program statements, depth, frame, machine⟩) :
    Activation.StaysInt64 settings ⟨.program statements, depth, frame, machine⟩ := by
  intro hnodes hmachine
  refine satisfies_programResult (fun before statement rest middle heq hbefore ↦ ?_)
    (fun value hvalue ↦ ?_) (fun _ hresult _ ↦ hresult) (by simp) hmachine
  · subst heq
    exact h _ (.statement hbefore) (hnodes statement (by simp))
  · rintro found ⟨⟩
    exact (Value.all_returned_iff.mp (hvalue _ rfl)).2

/-- From the activations that are started to the one that starts them. -/
theorem StartsInt64.staysInt64 {outer : Activation} (h : StartsInt64 settings outer)
    (hsize : ∀ size ∈ outer.size? settings, (size : Int) ≤ int64Max) :
    outer.StaysInt64 settings := by
  obtain ⟨task, depth, frame, machine⟩ := outer
  cases task with
  | program => exact staysInt64_program h
  | execute => exact staysInt64_execute h
  | executeEach => exact staysInt64_executeEach h
  | evaluate => exact staysInt64_evaluate h
  | evaluateEach => exact staysInt64_evaluateEach h
  | conditional => exact staysInt64_conditional h
  | call => exact staysInt64_call h hsize
  | hashLiteral => exact staysInt64_hashLiteral h

/-- Whether the sizes fit can be found out by going through all activations. -/
theorem Activation.sizesFit_of_reached {activation : Activation}
    (h : ∀ inner ∈ activation.reached settings (activation.rank settings),
      ∀ size ∈ inner.size? settings, (size : Int) ≤ int64Max) : activation.SizesFit settings :=
  fun inner hchain ↦ h inner (Activation.mem_reached hchain le_rfl)

theorem Activation.SizesFit.of_starts {outer inner : Activation} (h : outer.SizesFit settings)
    (hstarts : Starts settings outer inner) : inner.SizesFit settings :=
  fun other hchain ↦ h other (.head hstarts hchain)

theorem Activation.SizesFit.staysInt64 {activation : Activation}
    (h : activation.SizesFit settings) : activation.StaysInt64 settings := by
  -- On how many activations may still follow one another.
  induction hrank : activation.rank settings using Nat.strong_induction_on
    generalizing activation with
  | _ rank ih =>
    refine StartsInt64.staysInt64 (fun inner hstarts ↦ ?_) (h activation .refl)
    exact ih _ (hrank ▸ hstarts.rank_lt) (h.of_starts hstarts) rfl

end Evaluation

/-! ### Sessions -/

/-- In none of the texts, which are run one after the other, does `len` find more items than fit. -/
def Session.SizesFit (settings : Settings) : List String → Machine → Prop
  | [], _ => True
  | source :: rest, machine =>
    ((Program.ofSource source).problems = [] →
      ((Program.ofSource source).program.activation settings topFrame machine).SizesFit settings) ∧
    Session.SizesFit settings rest (runSource settings source topFrame machine).machine

theorem Program.run_yieldsInt64 {settings : Settings} {program : Program} {frame : FrameId}
    {machine : Machine} (hsizes : (program.activation settings frame machine).SizesFit settings)
    (hnodes : ∀ statement ∈ program.statements, statement.Every Node.FitsInt64)
    (hmachine : machine.scopes.YieldInt64) :
    (program.run settings frame machine).Satisfies Scopes.YieldInt64
      fun result ↦ ∀ value ∈ result, value.All Value.YieldsInt64 := by
  refine Program.satisfies_run (hsizes.staysInt64 hnodes hmachine) ?_
  rintro value ⟨⟩
  exact yieldsInt64_error _

theorem runSource_yieldsInt64 {settings : Settings} {source : String} {machine : Machine}
    (hsizes : (Program.ofSource source).problems = [] →
      ((Program.ofSource source).program.activation settings topFrame machine).SizesFit settings)
    (hmachine : machine.scopes.YieldInt64) :
    (runSource settings source topFrame machine).Satisfies Scopes.YieldInt64
      fun result ↦ ∀ value ∈ result.2, value.All Value.YieldsInt64 := by
  have hrun (hproblems : (Program.ofSource source).problems = []) :=
    Program.run_yieldsInt64 (hsizes hproblems) (Program.every_fitsInt64 source) hmachine
  exact satisfies_runSource hrun (by simp) hmachine

theorem Session.outcomes_yieldInt64 {settings : Settings} {sources : List String}
    {machine : Machine} (hsizes : Session.SizesFit settings sources machine)
    (hmachine : machine.scopes.YieldInt64) :
    ∀ outcome ∈ Session.outcomes settings sources machine, outcome.Satisfies Scopes.YieldInt64
      fun result ↦ ∀ value ∈ result.2, value.All Value.YieldsInt64 := by
  induction sources generalizing machine with
  | nil => exact List.forall_mem_nil _
  | cons source rest ih =>
    have hfirst := runSource_yieldsInt64 hsizes.1 hmachine
    rintro outcome (_ | ⟨_, hmem⟩)
    · exact hfirst
    · exact ih hsizes.2 hfirst.invariant outcome hmem

/-- In a session that starts with nothing, every integer that occurs in the result of a text or in a
binding that it leaves fits into 64 bits, if `len` never finds more items than that. -/
theorem integers_stay_within_64_bits (settings : Settings) (sources : List String)
    (hsizes : Session.SizesFit settings sources Machine.start) :
    ∀ outcome ∈ Session.outcomes settings sources Machine.start,
      outcome.Satisfies (Scopes.AllBindings (Value.All Value.FitsInt64))
        fun result ↦ ∀ value ∈ result.2, value.All Value.FitsInt64 := by
  have hstart : Machine.start.scopes.YieldInt64 := Scopes.allBindings_start _
  have hfits {value : Value} (hvalue : value.All Value.YieldsInt64) : value.All Value.FitsInt64 :=
    hvalue.mono fun _ ↦ Value.YieldsInt64.fitsInt64
  intro outcome hmem
  exact (Session.outcomes_yieldInt64 hsizes hstart outcome hmem).mono
    (fun scopes hscopes ↦ hscopes.mono fun _ ↦ hfits)
    fun result hresult value hvalue ↦ hfits (hresult value hvalue)

/-- With both bounds of the range, integers inside of arrays and hashes, lengths from a string and
an array, and the one quotient that does not fit. -/
theorem integers_stay_within_64_bits_at_bounds :
    let sources :=
      ["let low = -9223372036854775807 - 1; let n = len(\"abc\");",
        "let f = fn(x) \x7b return [x, \x7bx: low\x7d]; \x7d;",
        "f(len([n, n]) + 9223372036854775805)", "low / -1"]
    Session.SizesFit {} sources Machine.start ∧
      ∀ outcome ∈ Session.outcomes {} sources Machine.start,
        outcome.Satisfies (Scopes.AllBindings (Value.All Value.FitsInt64))
          fun result ↦ ∀ value ∈ result.2, value.All Value.FitsInt64 := by
  intro sources
  have hsizes : Session.SizesFit {} sources Machine.start :=
    ⟨fun _ ↦ Activation.sizesFit_of_reached (by decide +kernel),
      fun _ ↦ Activation.sizesFit_of_reached (by decide +kernel),
      fun _ ↦ Activation.sizesFit_of_reached (by decide +kernel),
      fun _ ↦ Activation.sizesFit_of_reached (by decide +kernel), trivial⟩
  exact ⟨hsizes, integers_stay_within_64_bits {} sources hsizes⟩

end MonkeyLang
