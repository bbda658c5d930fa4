import Mathlib.Tactic
import MonkeyLang.Proofs.Session.Joined

/-!
# When an evaluation ends with an error

For each of the evaluating functions this module says when exactly it ends with a given error: one
of the evaluations that it starts has ended with that error, or all of them have gone on and the
error is made of their results. In a loop, the items before the one at fault have gone on
(`Passes`).

The statements hold of every machine, also of one whose variables hold errors or returned values:
a value that is looked up or taken out of its wrapper may then be an error itself.
-/

set_option autoImplicit false

namespace MonkeyLang

variable {α β : Type}

/-! ### Runs one after the other -/

namespace Run

variable {machine final : Machine} {failure : Failure}

/-- A value that is an error is passed on, any other one is handed to the next run. -/
theorem andThen_eq_error_iff {first : Run Value} {next : Value → Run Value} :
    first.andThen next machine = .done (.error failure) final ↔
      first machine = .done (.error failure) final ∨
        ∃ found middle, first machine = .done found middle ∧ found.isError = false ∧
          next found middle = .done (.error failure) final := by
  rw [andThen]
  cases first machine with
  | halted halt middle => simp
  | done found middle => cases found <;> simp [Value.isError, Value.failure?]

end Run

/-- Neither a function nor an error. -/
def Value.IsUncallable : Value → Prop
  | .function _ | .builtin _ | .error _ => False
  | _ => True

theorem Value.not_isError_of_key? {value : Value} (h : value.key?.isSome) :
    value.isError = false := by
  cases value with
  | error failure => cases h
  | _ => rfl

namespace Evaluation

/-! ### Loops -/

/-- A loop fails exactly if one of its items does after those before it have gone on. The state that
the loop may carry plays no part in this. -/
theorem loop_iff {σ : Type} (next : σ → β → σ) (fails : σ → List α → Machine → Prop)
    (itemFails : α → Machine → Prop) {run : α → Run β} {goesOn : β → Prop}
    (hnil : ∀ state machine, ¬ fails state [] machine)
    (hcons : ∀ state item rest machine, fails state (item :: rest) machine ↔
      itemFails item machine ∨ ∃ found middle, run item machine = .done found middle ∧
        goesOn found ∧ fails (next state found) rest middle)
    (state : σ) (items : List α) (machine : Machine) :
    fails state items machine ↔ ∃ before item rest middle, items = before ++ item :: rest ∧
      Passes run goesOn before machine middle ∧ itemFails item middle := by
  constructor
  · intro hfails
    induction items generalizing state machine with
    | nil => exact absurd hfails (hnil state machine)
    | cons item rest ih =>
      rcases (hcons state item rest machine).mp hfails with hitem | ⟨found, middle, hrun, hgo, h⟩
      · exact ⟨[], item, rest, machine, rfl, .nil, hitem⟩
      · obtain ⟨before, other, behind, after, rfl, hpasses, hother⟩ := ih _ middle h
        exact ⟨item :: before, other, behind, after, rfl, .cons hrun hgo hpasses, hother⟩
  · rintro ⟨before, item, rest, middle, rfl, hpasses, hitem⟩
    induction hpasses generalizing state with
    | nil => exact (hcons state item rest _).mpr (.inl hitem)
    | cons hrun hgo _ ih => exact (hcons state _ _ _).mpr (.inr ⟨_, _, hrun, hgo, ih _ hitem⟩)

variable {machine final : Machine} {failure : Failure}

theorem values_eq_error_iff {evaluate : α → Run Value} {items : List α} :
    values evaluate items machine = .done (.error failure) final ↔
      ∃ before item rest middle, items = before ++ item :: rest ∧
        Passes evaluate (·.isError = false) before machine middle ∧
          evaluate item middle = .done (.error failure) final := by
  refine loop_iff (fun _ _ ↦ ())
    (fun _ items machine ↦ values evaluate items machine = .done (.error failure) final)
    (fun item machine ↦ evaluate item machine = .done (.error failure) final)
    (fun _ machine ↦ ?_) (fun _ item rest machine ↦ ?_) () items machine
  · simp [values, Run.pure_eq_done_iff]
  rw [values, Run.bind_eq_done_iff]
  constructor
  · rintro ⟨found, middle, hrun, hnext⟩
    cases found with
    | error other =>
      obtain ⟨heq, rfl⟩ := Run.pure_eq_done_iff.mp hnext
      obtain rfl := Except.error.inj heq
      exact .inl hrun
    | _ =>
      obtain ⟨result, after, hvalues, hresult⟩ := Run.bind_eq_done_iff.mp hnext
      refine .inr ⟨_, middle, hrun, rfl, ?_⟩
      cases result with
      | ok others => cases (Run.pure_eq_done_iff.mp hresult).1
      | error other =>
        obtain ⟨heq, rfl⟩ := Run.pure_eq_done_iff.mp hresult
        rw [hvalues, heq]
  · rintro (hitem | ⟨found, middle, hrun, hgo, hrest⟩)
    · exact ⟨_, _, hitem, rfl⟩
    · refine ⟨found, middle, hrun, ?_⟩
      cases found with
      | error other => cases hgo
      | _ => exact Run.bind_eq_done_iff.mpr ⟨_, _, hrest, rfl⟩

theorem bindArguments_zip (evaluate : α → Run Value) (frame : FrameId)
    (parameters : List Identifier) (arguments : List α) :
    bindArguments evaluate frame ((parameters.zip arguments).map (·.1))
        ((parameters.zip arguments).map (·.2)) =
      bindArguments evaluate frame parameters arguments := by
  induction parameters generalizing arguments with
  | nil => rfl
  | cons parameter parameters ih =>
    cases arguments with
    | nil => rfl
    | cons argument arguments =>
      rw [List.zip_cons_cons, List.map_cons, List.map_cons, bindArguments, bindArguments, ih]

theorem bindArguments_eq_some_iff {evaluate : α → Run Value} {frame : FrameId}
    {parameters : List Identifier} {arguments : List α} :
    bindArguments evaluate frame parameters arguments machine = .done (some failure) final ↔
      ∃ before pair rest middle, parameters.zip arguments = before ++ pair :: rest ∧
        Passes (bindOne evaluate frame) (·.isError = false) before machine middle ∧
          evaluate pair.2 middle = .done (.error failure) final := by
  rw [← bindArguments_zip]
  refine loop_iff (fun _ _ ↦ ())
    (fun _ (pairs : List (Identifier × α)) machine ↦
      bindArguments evaluate frame (pairs.map (·.1)) (pairs.map (·.2)) machine =
        .done (some failure) final)
    (fun pair machine ↦ evaluate pair.2 machine = .done (.error failure) final)
    (fun _ machine ↦ ?_) (fun _ pair rest machine ↦ ?_) () _ machine
  · simp [bindArguments, Run.pure_eq_done_iff]
  rw [List.map_cons, List.map_cons, bindArguments, Run.bind_eq_done_iff]
  constructor
  · rintro ⟨found, middle, hrun, hnext⟩
    cases found with
    | error other =>
      obtain ⟨heq, rfl⟩ := Run.pure_eq_done_iff.mp hnext
      obtain rfl := Option.some.inj heq
      exact .inl hrun
    | _ =>
      obtain ⟨_, after, hset, hrest⟩ := Run.bind_eq_done_iff.mp hnext
      exact .inr ⟨_, after, bindOne_eq_done_iff.mpr ⟨middle, hrun, hset⟩, rfl, hrest⟩
  · rintro (hitem | ⟨found, after, hrun, hgo, hrest⟩)
    · exact ⟨_, _, hitem, rfl⟩
    · obtain ⟨middle, hrun, hset⟩ := bindOne_eq_done_iff.mp hrun
      refine ⟨found, middle, hrun, ?_⟩
      cases found with
      | error other => cases hgo
      | _ => exact Run.bind_eq_done_iff.mpr ⟨_, _, hset, hrest⟩

/-- A pair of a hash fails by its key, by a key that can be none, or by its value. -/
def PairFails (evaluate : α → Run Value) (failure : Failure) (final : Machine) (pair : α × α)
    (machine : Machine) : Prop :=
  evaluate pair.1 machine = .done (.error failure) final ∨
    (∃ key, evaluate pair.1 machine = .done key final ∧ key.isError = false ∧ key.key? = none ∧
      Value.invalidHashKey key = .error failure) ∨
    ∃ key middle, evaluate pair.1 machine = .done key middle ∧ key.key?.isSome ∧
      evaluate pair.2 middle = .done (.error failure) final

theorem hashPairs_eq_error_iff {evaluate : α → Run Value} {pairs : List (α × α)}
    {entries : List (Key × Value)} :
    hashPairs evaluate pairs entries machine = .done (.error failure) final ↔
      ∃ before pair rest middle, pairs = before ++ pair :: rest ∧
        Passes (evaluatePair evaluate) IsEntry before machine middle ∧
          PairFails evaluate failure final pair middle := by
  refine loop_iff
    (fun entries found ↦ found.1.key?.elim entries (Entries.put · found.2 entries))
    (fun entries pairs machine ↦
      hashPairs evaluate pairs entries machine = .done (.error failure) final)
    (PairFails evaluate failure final)
    (fun entries machine ↦ ?_) (fun entries pair rest machine ↦ ?_) entries pairs machine
  · simp [hashPairs, Run.pure_eq_done_iff]
  obtain ⟨key, value⟩ := pair
  rw [hashPairs, Run.andThen_eq_error_iff]
  constructor
  · rintro (hkey | ⟨found, middle, hkey, herror, hnext⟩)
    · exact .inl (.inl hkey)
    · cases hfound : found.key? with
      | none =>
        rw [hfound] at hnext
        obtain ⟨hfailure, rfl⟩ := Run.pure_eq_done_iff.mp hnext
        exact .inl (.inr (.inl ⟨found, hkey, herror, hfound, hfailure⟩))
      | some entry =>
        have hentry : found.key?.isSome := by rw [hfound]; rfl
        rw [hfound] at hnext
        rcases Run.andThen_eq_error_iff.mp hnext with hvalue | ⟨other, after, hvalue, hother, hrest⟩
        · exact .inl (.inr (.inr ⟨found, middle, hkey, hentry, hvalue⟩))
        · refine .inr ⟨(found, other), after, ?_, ⟨hentry, hother⟩, ?_⟩
          · exact evaluatePair_eq_done_iff.mpr ⟨middle, hkey, hvalue⟩
          · rwa [hfound]
  · rintro ((hkey | ⟨found, hkey, herror, hfound, hfailure⟩ |
      ⟨found, middle, hkey, hentry, hvalue⟩) |
      ⟨⟨found, other⟩, after, hpair, ⟨hentry, hother⟩, hrest⟩)
    · exact .inl hkey
    · refine .inr ⟨found, final, hkey, herror, ?_⟩
      rw [hfound]
      exact Run.pure_eq_done_iff.mpr ⟨hfailure, rfl⟩
    · refine .inr ⟨found, middle, hkey, Value.not_isError_of_key? hentry, ?_⟩
      obtain ⟨entry, hfound⟩ := Option.isSome_iff_exists.mp hentry
      rw [hfound]
      exact Run.andThen_eq_error_iff.mpr (.inl hvalue)
    · obtain ⟨middle, hkey, hvalue⟩ := evaluatePair_eq_done_iff.mp hpair
      refine .inr ⟨found, middle, hkey, Value.not_isError_of_key? hentry, ?_⟩
      obtain ⟨entry, hfound⟩ := Option.isSome_iff_exists.mp hentry
      rw [hfound] at hrest ⊢
      exact Run.andThen_eq_error_iff.mpr (.inr ⟨other, after, hvalue, hother, hrest⟩)

/-- With a result that ends nothing, the loop goes on as without one. -/
theorem runEach_eq_error_congr {execute : α → Run (Option Value)} {statements : List α}
    {result : Option Value} (hends : ends result = false) :
    runEach execute result statements machine = .done (some (.error failure)) final ↔
      runEach execute none statements machine = .done (some (.error failure)) final := by
  cases statements with
  | cons statement rest => exact Iff.rfl
  | nil =>
    simp only [runEach, Run.pure_eq_done_iff]
    refine iff_of_false ?_ (by simp)
    rintro ⟨rfl, -⟩
    cases hends

theorem runEach_eq_error_iff {execute : α → Run (Option Value)} {statements : List α} :
    runEach execute none statements machine = .done (some (.error failure)) final ↔
      ∃ before statement rest middle, statements = before ++ statement :: rest ∧
        Passes execute (ends · = false) before machine middle ∧
          execute statement middle = .done (some (.error failure)) final := by
  refine loop_iff (fun _ _ ↦ ())
    (fun _ statements machine ↦
      runEach execute none statements machine = .done (some (.error failure)) final)
    (fun statement machine ↦ execute statement machine = .done (some (.error failure)) final)
    (fun _ machine ↦ ?_) (fun _ statement rest machine ↦ ?_) () statements machine
  · simp [runEach, Run.pure_eq_done_iff]
  rw [runEach, Run.bind_eq_done_iff]
  constructor
  · rintro ⟨result, middle, hrun, hnext⟩
    split at hnext
    · cases (Run.pure_eq_done_iff.mp hnext).1
    · obtain ⟨heq, rfl⟩ := Run.pure_eq_done_iff.mp hnext
      obtain rfl := Value.error.inj (Option.some.inj heq)
      exact .inl hrun
    · rename_i hreturned herror
      have hends := ends_eq_false hreturned herror
      exact .inr ⟨result, middle, hrun, hends, (runEach_eq_error_congr hends).mp hnext⟩
  · rintro (hstatement | ⟨result, middle, hrun, hends, hrest⟩)
    · exact ⟨_, _, hstatement, rfl⟩
    · refine ⟨result, middle, hrun, ?_⟩
      split
      · cases hends
      · cases hends
      · exact (runEach_eq_error_congr hends).mpr hrest

/-! ### Programs -/

variable {settings : Settings} {frame : FrameId}

/-- A program fails by a statement, or by the error that a returned value is. -/
def StatementFails (settings : Settings) (frame : FrameId) (failure : Failure) (final : Machine)
    (statement : Stmt) (machine : Machine) : Prop :=
  executeTraced settings frame statement machine = .done (some (.error failure)) final ∨
    executeTraced settings frame statement machine = .done (some (.returned (.error failure))) final

theorem programResult_eq_error_congr {statements : List Stmt} {result : Option Value}
    (hends : ends result = false) :
    programResult settings frame result statements machine = .done (some (.error failure)) final ↔
      programResult settings frame none statements machine =
        .done (some (.error failure)) final := by
  cases statements with
  | cons statement rest => exact Iff.rfl
  | nil =>
    simp only [programResult, Run.pure_eq_done_iff]
    refine iff_of_false ?_ (by simp)
    rintro ⟨rfl, -⟩
    cases hends

theorem programResult_eq_error_iff {statements : List Stmt} :
    programResult settings frame none statements machine = .done (some (.error failure)) final ↔
      ∃ before statement rest middle, statements = before ++ statement :: rest ∧
        Passes (executeTraced settings frame) (ends · = false) before machine middle ∧
          StatementFails settings frame failure final statement middle := by
  refine loop_iff (fun _ _ ↦ ())
    (fun _ statements machine ↦ programResult settings frame none statements machine =
      .done (some (.error failure)) final)
    (StatementFails settings frame failure final)
    (fun _ machine ↦ ?_) (fun _ statement rest machine ↦ ?_) () statements machine
  · simp [programResult, Run.pure_eq_done_iff]
  rw [programResult, Run.bind_eq_done_iff]
  constructor
  · rintro ⟨result, middle, hrun, hnext⟩
    obtain ⟨_, after, hnote, hnext⟩ := Run.bind_eq_done_iff.mp hnext
    have htraced := executeTraced_eq_done_iff.mpr ⟨middle, hrun, hnote⟩
    split at hnext
    · obtain ⟨heq, rfl⟩ := Run.pure_eq_done_iff.mp hnext
      obtain rfl := Option.some.inj heq
      exact .inl (.inr htraced)
    · obtain ⟨heq, rfl⟩ := Run.pure_eq_done_iff.mp hnext
      obtain rfl := Value.error.inj (Option.some.inj heq)
      exact .inl (.inl htraced)
    · rename_i hreturned herror
      have hends := ends_eq_false hreturned herror
      exact .inr ⟨result, after, htraced, hends, (programResult_eq_error_congr hends).mp hnext⟩
  · rintro ((htraced | htraced) | ⟨result, after, htraced, hends, hrest⟩)
    · obtain ⟨middle, hrun, hnote⟩ := executeTraced_eq_done_iff.mp htraced
      exact ⟨_, middle, hrun, Run.bind_eq_done_iff.mpr ⟨_, final, hnote, rfl⟩⟩
    · obtain ⟨middle, hrun, hnote⟩ := executeTraced_eq_done_iff.mp htraced
      exact ⟨_, middle, hrun, Run.bind_eq_done_iff.mpr ⟨_, final, hnote, rfl⟩⟩
    · obtain ⟨middle, hrun, hnote⟩ := executeTraced_eq_done_iff.mp htraced
      refine ⟨result, middle, hrun, Run.bind_eq_done_iff.mpr ⟨_, after, hnote, ?_⟩⟩
      split
      · cases hends
      · cases hends
      · exact (programResult_eq_error_congr hends).mpr hrest

/-! ### Expressions and statements -/

variable {depth : Nat}

theorem evaluate_identifier_eq_error_iff {name : Identifier} :
    evaluate settings (depth + 1) (.identifier name) frame machine = .done (.error failure) final ↔
      machine = final ∧
        (machine.scopes.get? frame name.value = some (.error failure) ∨
          machine.scopes.get? frame name.value = none ∧
            Entries.get? settings.builtins name.value = none ∧
              ⟨.undefinedIdentifier, name.value⟩ = failure) := by
  have hget : Run.getVariable frame name.value machine =
      .done (machine.scopes.get? frame name.value) machine := rfl
  simp only [evaluate, identifier, Run.bind_eq_done_iff, hget, Outcome.done.injEq]
  cases machine.scopes.get? frame name.value with
  | some value => simp [Run.pure_eq_done_iff, and_comm]
  | none =>
    cases Entries.get? settings.builtins name.value with
    | some builtin => simp [Run.pure_eq_done_iff]
    | none => simp [Run.pure_eq_done_iff, and_comm]

theorem evaluate_unary_eq_error_iff {origin : Origin} {operator : String} {right : Expr} :
    evaluate settings (depth + 1) (.unary origin operator right) frame machine =
        .done (.error failure) final ↔
      evaluate settings depth right frame machine = .done (.error failure) final ∨
        ∃ found, evaluate settings depth right frame machine = .done found final ∧
          found.isError = false ∧ Value.unary operator found = .error failure := by
  rw [evaluate, Run.andThen_eq_error_iff]
  simp [Run.pure_eq_done_iff]

theorem evaluate_binary_eq_error_iff {origin : Origin} {left right : Expr} {operator : String} :
    evaluate settings (depth + 1) (.binary origin left operator right) frame machine =
        .done (.error failure) final ↔
      evaluate settings depth left frame machine = .done (.error failure) final ∨
        ∃ a middle, evaluate settings depth left frame machine = .done a middle ∧
          a.isError = false ∧
            (evaluate settings depth right frame middle = .done (.error failure) final ∨
              ∃ b, evaluate settings depth right frame middle = .done b final ∧
                b.isError = false ∧ Value.binary operator a b = .error failure) := by
  rw [evaluate]
  simp [Run.andThen_eq_error_iff, Run.pure_eq_done_iff]

theorem evaluate_index_eq_error_iff {origin : Origin} {left place : Expr} :
    evaluate settings (depth + 1) (.index origin left place) frame machine =
        .done (.error failure) final ↔
      evaluate settings depth left frame machine = .done (.error failure) final ∨
        ∃ a middle, evaluate settings depth left frame machine = .done a middle ∧
          a.isError = false ∧
            (evaluate settings depth place frame middle = .done (.error failure) final ∨
              ∃ b, evaluate settings depth place frame middle = .done b final ∧
                b.isError = false ∧ Value.index a b = .error failure) := by
  rw [evaluate]
  simp [Run.andThen_eq_error_iff, Run.pure_eq_done_iff]

theorem evaluateEach_eq_error_iff {expressions : List Expr} :
    evaluateEach settings (depth + 1) expressions frame machine = .done (.error failure) final ↔
      ∃ before expression rest middle, expressions = before ++ expression :: rest ∧
        Passes (fun expression ↦ evaluate settings depth expression frame) (·.isError = false)
          before machine middle ∧
          evaluate settings depth expression frame middle = .done (.error failure) final := by
  rw [evaluateEach]
  exact values_eq_error_iff

theorem hashLiteral_eq_error_iff {pairs : List (Expr × Expr)} :
    hashLiteral settings (depth + 1) pairs frame machine = .done (.error failure) final ↔
      ∃ before pair rest middle, pairs = before ++ pair :: rest ∧
        Passes (evaluatePair fun expression ↦ evaluate settings depth expression frame) IsEntry
          before machine middle ∧
          PairFails (fun expression ↦ evaluate settings depth expression frame) failure final pair
            middle := by
  rw [hashLiteral]
  exact hashPairs_eq_error_iff

theorem executeEach_eq_error_iff {statements : List Stmt} :
    executeEach settings (depth + 1) statements frame machine =
        .done (some (.error failure)) final ↔
      ∃ before statement rest middle, statements = before ++ statement :: rest ∧
        Passes (fun statement ↦ execute settings depth statement frame) (ends · = false)
          before machine middle ∧
          execute settings depth statement frame middle = .done (some (.error failure)) final := by
  rw [executeEach]
  exact runEach_eq_error_iff

theorem evaluate_array_eq_error_iff {origin : Origin} {elements : List Expr} :
    evaluate settings (depth + 1) (.array origin elements) frame machine =
        .done (.error failure) final ↔
      evaluateEach settings depth elements frame machine = .done (.error failure) final := by
  rw [evaluate, Run.bind_eq_done_iff]
  constructor
  · rintro ⟨result, middle, hrun, hnext⟩
    cases result with
    | ok values => cases (Run.pure_eq_done_iff.mp hnext).1
    | error other =>
      obtain ⟨heq, rfl⟩ := Run.pure_eq_done_iff.mp hnext
      rwa [← Value.error.inj heq]
  · exact fun hrun ↦ ⟨_, final, hrun, rfl⟩

theorem orNull_eq_error_iff {result : Option Value} :
    orNull result = .error failure ↔ result = some (.error failure) := by
  cases result <;> simp [orNull]

theorem callResult_eq_error_iff {result : Option Value} :
    callResult result = .error failure ↔
      result = some (.error failure) ∨ result = some (.returned (.error failure)) := by
  unfold callResult
  split
  · simp
  · rename_i hne
    rw [orNull_eq_error_iff]
    exact (or_iff_left (hne _)).symm

theorem conditional_eq_error_iff {condition : Expr} {consequence : Block}
    {alternative : Option Block} :
    conditional settings (depth + 1) condition consequence alternative frame machine =
        .done (.error failure) final ↔
      evaluate settings depth condition frame machine = .done (.error failure) final ∨
        ∃ found middle, evaluate settings depth condition frame machine = .done found middle ∧
          found.isError = false ∧
            ∃ noted, noteCondition settings (some depth) found middle = .done () noted ∧
            (found.truthy = true ∧ execute settings depth (.block consequence) frame noted =
                .done (some (.error failure)) final ∨
              found.truthy = false ∧ ∃ block ∈ alternative,
                execute settings depth (.block block) frame noted =
                  .done (some (.error failure)) final) := by
  have hbranch (block : Block) (noted : Machine) :
      (execute settings depth (.block block) frame >>= fun result ↦ pure (orNull result)) noted =
          .done (.error failure) final ↔
        execute settings depth (.block block) frame noted =
          .done (some (.error failure)) final := by
    rw [Run.bind_eq_done_iff]
    simp [Run.pure_eq_done_iff, orNull_eq_error_iff]
  rw [conditional.eq_def, Run.andThen_eq_error_iff]
  refine or_congr_right (exists_congr fun found ↦ exists_congr fun middle ↦
    and_congr_right fun _ ↦ and_congr_right fun _ ↦ ?_)
  rw [Run.bind_unit_eq_done_iff]
  refine exists_congr fun noted ↦ and_congr_right fun _ ↦ ?_
  cases found.truthy with
  | true => exact (hbranch consequence noted).trans (by simp)
  | false =>
    cases alternative with
    | some block => exact (hbranch block noted).trans (by simp)
    | none => simp [Run.pure_eq_done_iff]

/-- The body of a function, once its parameters are bound. -/
def BodyFails (settings : Settings) (depth : Nat) (callee : Expr) (count : Nat) (body : Block)
    (inner : FrameId) (failure : Failure) (final bound : Machine) : Prop :=
  ∃ noted result, noteCall settings (some depth) callee count bound = .done () noted ∧
    execute settings depth (.block body) inner noted = .done result final ∧
      (result = some (.error failure) ∨ result = some (.returned (.error failure)))

/-- The arguments of a builtin function, or its result. -/
def BuiltinFails (settings : Settings) (depth : Nat) (builtin : Builtin) (arguments : List Expr)
    (frame : FrameId) (failure : Failure) (final machine : Machine) : Prop :=
  evaluateEach settings depth arguments frame machine = .done (.error failure) final ∨
    ∃ values middle noted,
      evaluateEach settings depth arguments frame machine = .done (.ok values) middle ∧
        noteBuiltin settings (some depth) builtin values middle = .done () noted ∧
          builtin.call (some depth) values noted = .done (.error failure) final

theorem call_eq_error_iff {callee : Expr} {arguments : List Expr} :
    call settings (depth + 1) callee arguments frame machine = .done (.error failure) final ↔
      evaluate settings depth callee frame machine = .done (.error failure) final ∨
      (∃ closure middle, evaluate settings depth callee frame machine =
          .done (.function closure) middle ∧
        ∃ inner opened, Run.openFrame closure.frame middle = .done inner opened ∧
          (bindArguments (fun argument ↦ evaluate settings depth argument frame) inner
              closure.parameters arguments opened = .done (some failure) final ∨
            ∃ bound, bindArguments (fun argument ↦ evaluate settings depth argument frame) inner
                closure.parameters arguments opened = .done none bound ∧
              BodyFails settings depth callee arguments.length closure.body inner failure final
                bound)) ∨
      (∃ builtin middle, evaluate settings depth callee frame machine =
          .done (.builtin builtin) middle ∧
        BuiltinFails settings depth builtin arguments frame failure final middle) ∨
      ∃ found, evaluate settings depth callee frame machine = .done found final ∧
        found.IsUncallable ∧ ⟨.callNonFunction, found.typeName⟩ = failure := by
  rw [call, Run.andThen_eq_error_iff]
  refine or_congr_right ⟨?_, ?_⟩
  · rintro ⟨found, middle, hcallee, herror, hnext⟩
    cases found with
    | error other => cases herror
    | function closure =>
      obtain ⟨inner, opened, hopen, hnext⟩ := Run.bind_eq_done_iff.mp hnext
      obtain ⟨result, bound, hbind, hnext⟩ := Run.bind_eq_done_iff.mp hnext
      refine .inl ⟨closure, middle, hcallee, inner, opened, hopen, ?_⟩
      cases result with
      | some other =>
        obtain ⟨heq, rfl⟩ := Run.pure_eq_done_iff.mp hnext
        rw [← Value.error.inj heq]
        exact .inl hbind
      | none =>
        obtain ⟨noted, hnote, hnext⟩ := Run.bind_unit_eq_done_iff.mp hnext
        obtain ⟨ended, after, hbody, hnext⟩ := Run.bind_eq_done_iff.mp hnext
        obtain ⟨heq, rfl⟩ := Run.pure_eq_done_iff.mp hnext
        exact .inr ⟨bound, hbind, noted, ended, hnote, hbody, callResult_eq_error_iff.mp heq⟩
    | builtin builtin =>
      obtain ⟨result, after, hvalues, hnext⟩ := Run.bind_eq_done_iff.mp hnext
      refine .inr (.inl ⟨builtin, middle, hcallee, ?_⟩)
      cases result with
      | error other =>
        obtain ⟨heq, rfl⟩ := Run.pure_eq_done_iff.mp hnext
        rw [← Value.error.inj heq]
        exact .inl hvalues
      | ok values =>
        obtain ⟨noted, hnote, hnext⟩ := Run.bind_unit_eq_done_iff.mp hnext
        exact .inr ⟨values, after, noted, hvalues, hnote, hnext⟩
    | _ =>
      obtain ⟨heq, rfl⟩ := Run.pure_eq_done_iff.mp hnext
      exact .inr (.inr ⟨_, hcallee, trivial, Value.error.inj heq⟩)
  · rintro (⟨closure, middle, hcallee, inner, opened, hopen, hrest⟩ |
      ⟨builtin, middle, hcallee, hrest⟩ | ⟨found, hcallee, huncallable, rfl⟩)
    · refine ⟨_, middle, hcallee, rfl, Run.bind_eq_done_iff.mpr ⟨inner, opened, hopen, ?_⟩⟩
      rcases hrest with hbind | ⟨bound, hbind, noted, ended, hnote, hbody, hended⟩
      · exact Run.bind_eq_done_iff.mpr ⟨_, final, hbind, rfl⟩
      · refine Run.bind_eq_done_iff.mpr ⟨_, bound, hbind, ?_⟩
        refine Run.bind_unit_eq_done_iff.mpr ⟨noted, hnote, ?_⟩
        refine Run.bind_eq_done_iff.mpr ⟨ended, final, hbody, ?_⟩
        exact Run.pure_eq_done_iff.mpr ⟨callResult_eq_error_iff.mpr hended, rfl⟩
    · refine ⟨_, middle, hcallee, rfl, ?_⟩
      rcases hrest with hvalues | ⟨values, after, noted, hvalues, hnote, hcall⟩
      · exact Run.bind_eq_done_iff.mpr ⟨_, final, hvalues, rfl⟩
      · refine Run.bind_eq_done_iff.mpr ⟨_, after, hvalues, ?_⟩
        exact Run.bind_unit_eq_done_iff.mpr ⟨noted, hnote, hcall⟩
    · refine ⟨found, final, hcallee, ?_, ?_⟩
      · cases found with
        | error other => exact huncallable.elim
        | _ => rfl
      · cases found with
        | function | builtin | error => exact huncallable.elim
        | _ => rfl

theorem execute_expression_eq_error_iff {origin : Origin} {expression : Expr} :
    execute settings (depth + 1) (.expression origin expression) frame machine =
        .done (some (.error failure)) final ↔
      evaluate settings depth expression frame machine = .done (.error failure) final := by
  rw [execute, Run.bind_eq_done_iff]
  simp [Run.pure_eq_done_iff]

theorem execute_returning_eq_error_iff {origin : Origin} {expression : Expr} :
    execute settings (depth + 1) (.returning origin expression) frame machine =
        .done (some (.error failure)) final ↔
      evaluate settings depth expression frame machine = .done (.error failure) final := by
  rw [execute, Run.bind_eq_done_iff]
  constructor
  · rintro ⟨found, middle, hrun, hnext⟩
    cases found with
    | error other =>
      obtain ⟨heq, rfl⟩ := Run.pure_eq_done_iff.mp hnext
      rwa [← Option.some.inj heq]
    | _ => cases (Run.pure_eq_done_iff.mp hnext).1
  · exact fun hrun ↦ ⟨_, final, hrun, rfl⟩

theorem execute_binding_eq_error_iff {origin : Origin} {name : Identifier} {expression : Expr} :
    execute settings (depth + 1) (.binding origin name expression) frame machine =
        .done (some (.error failure)) final ↔
      evaluate settings depth expression frame machine = .done (.error failure) final := by
  rw [execute, Run.bind_eq_done_iff]
  constructor
  · rintro ⟨found, middle, hrun, hnext⟩
    cases found with
    | error other =>
      obtain ⟨heq, rfl⟩ := Run.pure_eq_done_iff.mp hnext
      rwa [← Option.some.inj heq]
    | _ =>
      obtain ⟨bound, -, hnext⟩ := Run.bind_unit_eq_done_iff.mp hnext
      obtain ⟨noted, -, hnext⟩ := Run.bind_unit_eq_done_iff.mp hnext
      cases (Run.pure_eq_done_iff.mp hnext).1
  · exact fun hrun ↦ ⟨_, final, hrun, rfl⟩

end Evaluation

end MonkeyLang
