import Mathlib.Tactic
import MonkeyLang.Proofs.Parser.Lockstep
import MonkeyLang.Proofs.Parser.Nesting

/-!
# The limit on nested calls only cuts parses short

A parse that may make more nested calls does what the one with fewer does, for as long as that one
goes on. If the shorter parse is not cut off, the two are the same. If it is, it has completed the
statements that the longer one begins with, and its diagnostics are those that the longer one has
recorded up to there, with the one about nesting behind them; what had been read of the statement in
which it was cut off is lost.

The relation `Attempt.CutsShort` says this of two attempts. It is in lockstep, and an attempt that
is cut off at once cuts every attempt short that only adds diagnostics, as all of them do; so it
holds of the parsing functions for `low` nested calls against `low + more`, by `LockstepAt.add`.

Since six nested calls for each token are enough, there is a parse that all large limits give, and
it is the one without a limit.
-/

set_option autoImplicit false

namespace MonkeyLang

namespace Parser

variable {α β : Type}

/-! ### Diagnostics that are added -/

/-- The second input has the diagnostics of the first one and perhaps more behind them, none of
which is about nesting. -/
def Input.Grows (input rest : Input) : Prop :=
  ∃ added, rest.problems.toList = input.problems.toList ++ added ∧
    Diagnostic.nestingTooDeep ∉ added

namespace Input.Grows

variable {input middle rest : Input}

theorem of_problems_eq (h : rest.problems = input.problems) : input.Grows rest :=
  ⟨[], by rw [h, List.append_nil], List.not_mem_nil⟩

theorem trans (h : input.Grows middle) (h' : middle.Grows rest) : input.Grows rest := by
  obtain ⟨added, heq, hnot⟩ := h
  obtain ⟨more, heq', hnot'⟩ := h'
  refine ⟨added ++ more, by rw [heq', heq, List.append_assoc], ?_⟩
  rw [List.mem_append]
  exact not_or_intro hnot hnot'

theorem report (input : Input) {problem : Diagnostic}
    (hcause : problem.cause ≠ .nestingTooDeep) : input.Grows (input.report problem) := by
  refine ⟨[problem], by rw [Input.problems_report, Array.toList_push], fun hmem ↦ hcause ?_⟩
  rw [← List.mem_singleton.mp hmem]
  rfl

theorem problems_prefix (h : input.Grows rest) :
    input.problems.toList <+: rest.problems.toList := by
  obtain ⟨added, heq, -⟩ := h
  rw [heq]
  exact List.prefix_append _ _

end Input.Grows

/-! ### Attempts that are cut short -/

/-- The first outcome is the second, or the cut-off at some moment on the way to it; and the second
only adds diagnostics to those of the input. -/
structure Outcome.CutsShort (input : Input) (short long : Outcome α) : Prop where
  grows : input.Grows long.rest
  agrees : short = long ∨
    ∃ rest, short = .cutOff rest ∧ rest.problems.toList <+: long.rest.problems.toList

namespace Attempt

/-- The first attempt does what the second does, or is cut off at some moment of it. -/
def CutsShort (short long : Attempt α) : Prop :=
  ∀ input : Input, (short input).CutsShort input (long input)

/-- An attempt against itself. -/
theorem cutsShort_self {construct : Attempt α}
    (h : ∀ input : Input, input.Grows (construct input).rest) : CutsShort construct construct :=
  fun input ↦ ⟨h input, .inl rfl⟩

/-- An attempt that leaves the diagnostics alone, against itself. -/
theorem cutsShort_of_problems_eq {construct : Attempt α}
    (h : ∀ input : Input, (construct input).rest.problems = input.problems) :
    CutsShort construct construct :=
  cutsShort_self fun input ↦ .of_problems_eq (h input)

theorem CutsShort.cutOff {short long : Attempt α} (h : CutsShort short long) :
    CutsShort Parser.cutOff long :=
  fun input ↦ ⟨(h input).grows, .inr ⟨input, rfl, (h input).grows.problems_prefix⟩⟩

theorem CutsShort.bind {first first' : Attempt α} {next next' : α → Attempt β}
    (hfirst : CutsShort first first') (hnext : ∀ value, CutsShort (next value) (next' value)) :
    CutsShort (first >>= next) (first' >>= next') := by
  intro input
  obtain ⟨hgrows, hagrees⟩ := hfirst input
  rw [bind_apply, bind_apply]
  -- The second attempt has either ended in its first half or goes on from where that has ended.
  cases hlong : first' input with
  | done value middle =>
    rw [hlong] at hgrows hagrees
    obtain ⟨hgrows', hagrees'⟩ := hnext value middle
    refine ⟨hgrows.trans hgrows', ?_⟩
    rcases hagrees with heq | ⟨rest, heq, hbefore⟩
    · rw [heq]
      exact hagrees'
    · exact .inr ⟨rest, by rw [heq], hbefore.trans hgrows'.problems_prefix⟩
  | failed middle | cutOff middle =>
    rw [hlong] at hgrows hagrees
    refine ⟨hgrows, ?_⟩
    rcases hagrees with heq | ⟨rest, heq, hbefore⟩
    · exact .inl (by rw [heq])
    · exact .inr ⟨rest, by rw [heq], hbefore⟩

theorem CutsShort.optional {short long : Attempt α} (h : CutsShort short long) :
    CutsShort short.optional long.optional := by
  intro input
  obtain ⟨hgrows, hagrees⟩ := h input
  have hrest : (long.optional input).rest = (long input).rest := by
    rw [Attempt.optional]
    cases long input <;> rfl
  refine ⟨hrest ▸ hgrows, ?_⟩
  rcases hagrees with heq | ⟨rest, heq, hbefore⟩
  · exact .inl (by rw [Attempt.optional, Attempt.optional, heq])
  · exact .inr ⟨rest, by rw [Attempt.optional, heq], hrest ▸ hbefore⟩

theorem CutsShort.reportSilence {short long : Attempt α} (h : CutsShort short long) :
    CutsShort (reportSilence short) (reportSilence long) := by
  intro input
  obtain ⟨hgrows, hagrees⟩ := h input
  have hreported : (long input).rest.Grows (Parser.reportSilence long input).rest := by
    rw [Parser.reportSilence]
    cases long input with
    | done value rest | cutOff rest => exact .of_problems_eq rfl
    | failed rest =>
      dsimp only
      split_ifs
      · exact .report rest (by rintro ⟨⟩)
      · exact .of_problems_eq rfl
  refine ⟨hgrows.trans hreported, ?_⟩
  rcases hagrees with heq | ⟨rest, heq, hbefore⟩
  · exact .inl (by rw [Parser.reportSilence, Parser.reportSilence, heq])
  · refine .inr ⟨rest, ?_, hbefore.trans hreported.problems_prefix⟩
    rw [Parser.reportSilence, heq]

theorem cutsShort_expect (kind : Kind) : CutsShort (expect kind) (expect kind) := by
  refine cutsShort_self fun input ↦ ?_
  rw [expect]
  split_ifs
  · exact .of_problems_eq rfl
  · exact .report input (by rintro ⟨⟩)

theorem cutsShort_accept (kind : Kind) : CutsShort (accept kind) (accept kind) := by
  refine cutsShort_of_problems_eq fun input ↦ ?_
  rw [accept]
  split_ifs <;> rfl

end Attempt

/-! ### The parsing functions -/

open Attempt

theorem lockstep_cutsShort : Lockstep CutsShort where
  pure _ := cutsShort_of_problems_eq fun _ ↦ rfl
  bind := CutsShort.bind
  current := cutsShort_of_problems_eq fun _ ↦ rfl
  peekKind := cutsShort_of_problems_eq fun _ ↦ rfl
  remaining := cutsShort_of_problems_eq fun _ ↦ rfl
  advance := cutsShort_of_problems_eq fun _ ↦ rfl
  expect := cutsShort_expect
  accept := cutsShort_accept
  failed := cutsShort_of_problems_eq fun _ ↦ rfl
  refuse _ hcause := cutsShort_self fun input ↦ .report input hcause
  optional := CutsShort.optional
  required := CutsShort.reportSilence

/-- With no nested call allowed at all. -/
theorem lockstepAt_zero_cutsShort (more : Nat) : LockstepAt CutsShort 0 more := by
  have h := LockstepAt.same lockstep_cutsShort (cutsShort_of_problems_eq fun _ ↦ rfl) more
  exact {
    statement := h.statement.cutOff
    letStatement := h.letStatement.cutOff
    returnStatement := h.returnStatement.cutOff
    expressionStatement := h.expressionStatement.cutOff
    block := h.block.cutOff
    expression := fun floor ↦ (h.expression floor).cutOff
    required := h.required.cutOff
    unary := fun token ↦ (h.unary token).cutOff
    binary := fun token left ↦ (h.binary token left).cutOff
    grouped := h.grouped.cutOff
    conditional := fun token ↦ (h.conditional token).cutOff
    functionLiteral := fun token ↦ (h.functionLiteral token).cutOff
    items := fun close ↦ (h.items close).cutOff
    call := fun token callee ↦ (h.call token callee).cutOff
    arrayLiteral := fun token ↦ (h.arrayLiteral token).cutOff
    index := fun token left ↦ (h.index token left).cutOff
    hashLiteral := fun token ↦ (h.hashLiteral token).cutOff }

theorem statement_cutsShort {low high : Nat} (hle : low ≤ high) :
    CutsShort (statement low) (statement high) := by
  obtain ⟨more, rfl⟩ := Nat.exists_eq_add_of_le' hle
  have hat := (lockstepAt_zero_cutsShort more).add lockstep_cutsShort low
  rw [Nat.zero_add] at hat
  exact hat.statement

/-! ### Programs -/

/-- Statements that are complete are kept. -/
theorem statements_suffix (limit : Nat) (bound : List Token) (done : List Stmt) (input : Input) :
    done <:+ (statements limit bound done input).1 := by
  induction bound generalizing done input with
  | nil => exact List.suffix_refl _
  | cons first bound ih =>
    by_cases hend : input.current.kind = .endOfInput
    · rw [statements_of_end limit _ done hend]
    · rw [statements_cons limit first bound done hend]
      cases statement limit input with
      | done tree rest => exact (List.suffix_cons _ _).trans (ih _ _)
      | failed rest => exact ih _ _
      | cutOff rest => exact List.suffix_refl _

/-- What is left of a program after one of its statements only adds to the statements and the
diagnostics. -/
theorem statements_cons_extends (limit : Nat) (first : Token) (bound : List Token)
    (done : List Stmt) {input : Input} (hend : input.current.kind ≠ .endOfInput) :
    done <:+ (statements limit (first :: bound) done input).1 ∧
      (statement limit input).rest.problems.toList <+:
        (statements limit (first :: bound) done input).2.problems.toList := by
  refine ⟨statements_suffix _ _ _ _, ?_⟩
  rw [statements_cons limit first bound done hend]
  cases statement limit input with
  | done tree rest => exact (statements_forward limit bound _ rest.advance).problems
  | failed rest => exact (statements_forward limit bound _ rest.advance).problems
  | cutOff rest => exact (Input.Precedes.report rest _).problems

/-- Under a lower limit the statements of a program are the same, or they are cut off on the way. -/
theorem statements_cutsShort {low high : Nat} (hle : low ≤ high) (bound : List Token)
    (done : List Stmt) (input : Input) :
    statements low bound done input = statements high bound done input ∨
      ∃ (found : List Stmt) (rest : Input),
        statements low bound done input = (found, rest.report .nestingTooDeep) ∧
        found <:+ (statements high bound done input).1 ∧
        rest.problems.toList <+: (statements high bound done input).2.problems.toList := by
  induction bound generalizing done input with
  | nil => exact .inl rfl
  | cons first bound ih =>
    by_cases hend : input.current.kind = .endOfInput
    · exact .inl (by rw [statements_of_end low _ done hend, statements_of_end high _ done hend])
    obtain ⟨hdone, hproblems⟩ := statements_cons_extends high first bound done hend
    rcases (statement_cutsShort hle input).agrees with heq | ⟨rest, heq, hbefore⟩
    · rw [statements_cons low first bound done hend, statements_cons high first bound done hend,
        heq]
      cases statement high input with
      | done tree rest => exact ih _ _
      | failed rest => exact ih _ _
      | cutOff rest => exact .inl rfl
    · refine .inr ⟨done, rest, ?_, hdone, hbefore.trans hproblems⟩
      rw [statements_cons low first bound done hend, heq]

/-- Statements that are never cut off add no diagnostic about nesting. -/
theorem statements_grows {limit count : Nat} (hsettles : (statement limit).Settles count)
    (bound : List Token) (done : List Stmt) {input : Input}
    (hlength : input.tokens.length ≤ count) :
    input.Grows (statements limit bound done input).2 := by
  induction bound generalizing done input with
  | nil => exact .of_problems_eq rfl
  | cons first bound ih =>
    by_cases hend : input.current.kind = .endOfInput
    · rw [statements_of_end limit _ done hend]
      exact .of_problems_eq rfl
    · have hgrows := (statement_cutsShort (Nat.le_refl limit) input).grows
      have hforward := (orderlyAt limit).statement input
      rw [statements_cons limit first bound done hend]
      cases houtcome : statement limit input with
      | done tree rest | failed rest =>
        rw [houtcome] at hgrows hforward
        have hshorter : rest.advance.tokens.length ≤ count :=
          (length_advance_le (hforward.tokens.length_le.trans hlength)).trans (Nat.sub_le _ _)
        exact hgrows.trans (ih _ hshorter)
      | cutOff rest => exact absurd houtcome (hsettles input rest hlength)

end Parser

/-- Under a lower limit a parse is the same, or its statements and diagnostics are the first ones of
the parse under the higher one, with the diagnostic about nesting behind them. -/
theorem Program.ofTokens_cutsShort {low high : Nat} (hle : low ≤ high) (tokens : List Token) :
    Program.ofTokens low tokens = Program.ofTokens high tokens ∨
      (Program.ofTokens low tokens).program.statements <+:
          (Program.ofTokens high tokens).program.statements ∧
        ∃ before, before <+: (Program.ofTokens high tokens).problems ∧
          (Program.ofTokens low tokens).problems = before ++ [.nestingTooDeep] := by
  rcases Parser.statements_cutsShort hle tokens [] ⟨tokens, #[]⟩ with
    heq | ⟨found, rest, heq, hfound, hrest⟩
  · exact .inl (by rw [Program.ofTokens, Program.ofTokens, heq])
  · right
    have hlow : Program.ofTokens low tokens =
        ⟨⟨found.reverse⟩, rest.problems.toList ++ [.nestingTooDeep]⟩ := by
      rw [Program.ofTokens, heq]
      show (⟨⟨found.reverse⟩, (rest.problems.push .nestingTooDeep).toList⟩ : Parsed) = _
      rw [Array.toList_push]
    rw [hlow]
    exact ⟨List.reverse_prefix.mpr hfound, rest.problems.toList, hrest, rfl⟩

theorem Program.nestingTooDeep_not_mem {limit : Nat} {tokens : List Token}
    (hlimit : Parser.enoughDepth tokens.length ≤ limit) :
    Diagnostic.nestingTooDeep ∉ (Program.ofTokens limit tokens).problems := by
  have hsettles := Parser.statement_settles hlimit
  have hlength : (Parser.Input.mk tokens #[]).tokens.length ≤ tokens.length := Nat.le_refl _
  obtain ⟨added, heq, hnot⟩ := Parser.statements_grows hsettles tokens [] hlength
  show Diagnostic.nestingTooDeep ∉
    (Parser.statements limit tokens [] ⟨tokens, #[]⟩).2.problems.toList
  rw [heq]
  exact hnot

/-- If a parse has no diagnostic about nesting, a higher limit changes nothing. -/
theorem Program.ofTokens_eq_of_le {low high : Nat} (hle : low ≤ high) {tokens : List Token}
    (hdepth : Diagnostic.nestingTooDeep ∉ (Program.ofTokens low tokens).problems) :
    Program.ofTokens high tokens = Program.ofTokens low tokens := by
  rcases Program.ofTokens_cutsShort hle tokens with heq | ⟨-, before, -, heq⟩
  · exact heq.symm
  · rw [heq] at hdepth
    exact absurd (List.mem_append_right _ (List.mem_singleton_self _)) hdepth

/-- Every list of tokens has a parse without a limit, which is what all large limits give. Under any
limit the parse is that one, or it is cut off: it has the first statements of that one and its first
diagnostics, with the one about nesting behind them and nowhere else. A limit under which it is that
one may be raised. -/
theorem nesting_limit_only_truncates (tokens : List Token) :
    ∃ unlimited : Parsed, Diagnostic.nestingTooDeep ∉ unlimited.problems ∧
      (∃ enough, ∀ limit, enough ≤ limit → Program.ofTokens limit tokens = unlimited) ∧
      ∀ limit,
        (Program.ofTokens limit tokens = unlimited ∨
          (Program.ofTokens limit tokens).program.statements <+: unlimited.program.statements ∧
            ∃ before, before <+: unlimited.problems ∧
              (Program.ofTokens limit tokens).problems = before ++ [.nestingTooDeep]) ∧
        (Program.ofTokens limit tokens = unlimited →
          ∀ larger, limit ≤ larger → Program.ofTokens larger tokens = unlimited) := by
  have hnot := Program.nestingTooDeep_not_mem (Nat.le_refl (Parser.enoughDepth tokens.length))
  refine ⟨Program.ofTokens (Parser.enoughDepth tokens.length) tokens, hnot,
    ⟨_, fun limit hle ↦ Program.ofTokens_eq_of_le hle hnot⟩, fun limit ↦ ⟨?_, ?_⟩⟩
  · rcases Nat.le_total limit (Parser.enoughDepth tokens.length) with hle | hle
    · exact Program.ofTokens_cutsShort hle tokens
    · exact .inl (Program.ofTokens_eq_of_le hle hnot)
  · intro heq larger hle
    rw [← heq] at hnot ⊢
    exact Program.ofTokens_eq_of_le hle hnot

/-- A group that is nested too deeply for the limit ends the parse behind the first statement. -/
theorem nesting_limit_truncates_groups :
    ∃ unlimited : Parsed,
      (∃ enough, ∀ limit, enough ≤ limit →
        Program.ofTokens limit (tokenize "1; ((2)); 3") = unlimited) ∧
      (Program.ofTokens 6 (tokenize "1; ((2)); 3")).program.statements <+:
        unlimited.program.statements ∧
      (Program.ofTokens 6 (tokenize "1; ((2)); 3")).program.statements.length = 1 ∧
      (Program.ofTokens 6 (tokenize "1; ((2)); 3")).problems = [.nestingTooDeep] := by
  have hproblems : (Program.ofTokens 6 (tokenize "1; ((2)); 3")).problems = [.nestingTooDeep] := by
    decide +kernel
  obtain ⟨unlimited, hnot, henough, hlimits⟩ :=
    nesting_limit_only_truncates (tokenize "1; ((2)); 3")
  refine ⟨unlimited, henough, ?_, by decide +kernel, hproblems⟩
  rcases (hlimits 6).1 with heq | ⟨hstatements, -⟩
  · rw [← heq, hproblems] at hnot
    exact absurd (List.mem_singleton_self _) hnot
  · exact hstatements

end MonkeyLang
