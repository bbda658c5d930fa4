import Mathlib.Tactic
import MonkeyLang.Proofs.Evaluation.Invariant
import MonkeyLang.Proofs.Parser.Joining
import MonkeyLang.Proofs.Token.Joints

/-!
# A session is the joined program

Texts that are run one after the other on one machine do what the text does that joins them by
semicolons. The statements of the joined text are those of the texts, as long as each text is closed
and parsed without a diagnostic. They do the same as in the session if none of the texts before the
last ends early, by an error or a return: each text then hands its machine on to the next, and the
result of a text is forgotten as soon as another statement is run.
-/

set_option autoImplicit false

namespace MonkeyLang

/-! ### Parsing texts joined by a semicolon -/

/-- Behind a text that is parsed without a diagnostic and a semicolon, another one is parsed as if
it stood alone. -/
theorem Program.ofSource_append (first second : String) (hclosed : Closed first.toList)
    (hclean : (Program.ofSource first).problems = []) :
    Program.ofSource (first ++ ";" ++ second) =
      ⟨⟨(Program.ofSource first).program.statements ++
          (Program.ofSource second).program.statements⟩, (Program.ofSource second).problems⟩ := by
  obtain ⟨tokens, hendless, hfirst, hjoined⟩ := exists_tokenize_joined first second hclosed
  have hsemicolon : Kind.semicolon.token.kind = .semicolon := rfl
  rw [Program.ofSource, hfirst] at hclean
  rw [Program.ofSource, hjoined, Program.ofSource, hfirst]
  exact Parser.ofTokens_joined 49999 hendless hsemicolon hclean

/-- Texts that are each parsed without a diagnostic, and whose strings are closed, are parsed
together as the statements of one after the other. -/
theorem Program.ofSource_joined {sources : List String} (hne : sources ≠ [])
    (hclosed : ∀ source ∈ sources, Closed source.toList)
    (hclean : ∀ source ∈ sources, (Program.ofSource source).problems = []) :
    Program.ofSource (";".intercalate sources) =
      ⟨⟨sources.flatMap fun source ↦ (Program.ofSource source).program.statements⟩, []⟩ := by
  induction sources with
  | nil => exact absurd rfl hne
  | cons source rest ih =>
    have hsource := hclean source (.head _)
    cases rest with
    | nil => rw [String.intercalate_singleton, List.flatMap_singleton, ← hsource]
    | cons next rest =>
      have hrest := ih (List.cons_ne_nil _ _) (fun other hmem ↦ hclosed other (.tail _ hmem))
        fun other hmem ↦ hclean other (.tail _ hmem)
      rw [String.intercalate_cons_cons, ofSource_append _ _ (hclosed source (.head _)) hsource,
        hrest]
      rfl

/-! ### Programs run one after the other -/

namespace Evaluation

/-- Whether the statements of a program are all run, and none of them ends it. -/
def runsThrough (settings : Settings) (frame : FrameId) : List Stmt → Machine → Bool
  | [], _ => true
  | statement :: rest, machine =>
    match execute settings settings.depthLimit statement frame machine with
    | .halted _ _ => false
    | .done result machine =>
      match noteStatement settings (some settings.depthLimit) statement result machine with
      | .halted _ _ => false
      | .done _ machine => !ends result && runsThrough settings frame rest machine

variable {settings : Settings} {frame : FrameId}

theorem programResult_cons {statement : Stmt} {rest : List Stmt} {machine middle after : Machine}
    {result : Option Value} (first : Option Value)
    (hexecute : execute settings settings.depthLimit statement frame machine = .done result middle)
    (hnote : noteStatement settings (some settings.depthLimit) statement result middle =
      .done () after)
    (hends : ends result = false) :
    programResult settings frame first (statement :: rest) machine =
      programResult settings frame result rest after := by
  rw [programResult]
  show Run.bind _ _ machine = _
  rw [Run.bind, hexecute]
  show Run.bind _ _ middle = _
  rw [Run.bind, hnote]
  dsimp only
  split
  · cases hends
  · cases hends
  · rfl

/-- Statements that run through hand their last result and the machine to the statements behind
them. Only the result depends on the one that they start with. -/
theorem programResult_append (statements : List Stmt) {machine : Machine}
    (hthrough : runsThrough settings frame statements machine) :
    ∃ after, ∀ result, ∃ found, ∀ rest,
      programResult settings frame result (statements ++ rest) machine =
        programResult settings frame found rest after := by
  induction statements generalizing machine with
  | nil => exact ⟨machine, fun result ↦ ⟨result, fun rest ↦ rfl⟩⟩
  | cons statement statements ih =>
    rw [runsThrough] at hthrough
    cases hexecute : execute settings settings.depthLimit statement frame machine with
    | halted halt middle =>
      rw [hexecute] at hthrough
      cases hthrough
    | done result middle =>
      rw [hexecute] at hthrough
      cases hnote : noteStatement settings (some settings.depthLimit) statement result middle with
      | halted halt middle' =>
        simp only [hnote] at hthrough
        cases hthrough
      | done _ middle' =>
        simp only [hnote, Bool.and_eq_true, Bool.not_eq_true'] at hthrough
        obtain ⟨after, hafter⟩ := ih hthrough.2
        obtain ⟨found, hfound⟩ := hafter result
        refine ⟨after, fun _ ↦ ⟨found, fun rest ↦ ?_⟩⟩
        rw [← hfound rest]
        exact programResult_cons _ hexecute hnote hthrough.1

end Evaluation

/-- Whether none of the texts but the last, run one after the other, ends with an error or by a
return. -/
def Session.runsThrough (settings : Settings) : List String → Machine → Bool
  | [], _ | [_], _ => true
  | source :: next :: rest, machine =>
    Evaluation.runsThrough settings topFrame (Program.ofSource source).program.statements machine &&
      runsThrough settings (next :: rest) (runSource settings source topFrame machine).machine

namespace Session

variable {settings : Settings}

/-- A text without diagnostics does what its statements do. -/
theorem runSource_congr {source other : String} {machine machine' : Machine}
    (hclean : (Program.ofSource source).problems = [])
    (hclean' : (Program.ofSource other).problems = [])
    (hresult : Evaluation.programResult settings topFrame none
        (Program.ofSource source).program.statements machine =
      Evaluation.programResult settings topFrame none
        (Program.ofSource other).program.statements machine') :
    runSource settings source topFrame machine = runSource settings other topFrame machine' := by
  have hrun : (Program.ofSource source).program.run settings topFrame machine =
      (Program.ofSource other).program.run settings topFrame machine' := by
    rw [Program.run, Program.run, hresult]
  simp only [runSource, hclean, hclean', List.isEmpty_nil, if_true]
  show Run.bind _ _ machine = Run.bind _ _ machine'
  rw [Run.bind, Run.bind, hrun]

theorem machine_runSource {source : String} {machine after : Machine} {found : Option Value}
    (hclean : (Program.ofSource source).problems = [])
    (hresult : Evaluation.programResult settings topFrame none
      (Program.ofSource source).program.statements machine = .done found after) :
    (runSource settings source topFrame machine).machine = after := by
  have hrun : (Program.ofSource source).program.run settings topFrame machine =
      .done found after := by
    rw [Program.run, hresult]
  simp only [runSource, hclean, List.isEmpty_nil, if_true]
  show (Run.bind _ _ machine).machine = after
  rw [Run.bind, hrun]
  rfl

/-- The last text of a session does what is left of all the statements, from the machine that the
texts before it leave. -/
theorem exists_before_last {sources : List String} (hne : sources ≠ [])
    (hclean : ∀ source ∈ sources, (Program.ofSource source).problems = [])
    (hlast : (Program.ofSource (sources.getLast hne)).program.statements ≠ [])
    {machine : Machine} (hthrough : runsThrough settings sources machine)
    (result : Option Value) :
    ∃ before,
      Evaluation.programResult settings topFrame result
          (sources.flatMap fun source ↦ (Program.ofSource source).program.statements) machine =
        Evaluation.programResult settings topFrame none
          (Program.ofSource (sources.getLast hne)).program.statements before ∧
      (outcomes settings sources machine).getLast? =
        some (runSource settings (sources.getLast hne) topFrame before) := by
  induction sources generalizing machine result with
  | nil => exact absurd rfl hne
  | cons source rest ih =>
    cases rest with
    | nil =>
      refine ⟨machine, ?_, rfl⟩
      rw [List.flatMap_singleton]
      obtain ⟨statement, others, hstatements⟩ := List.exists_cons_of_ne_nil hlast
      rw [List.getLast_singleton] at hstatements
      rw [List.getLast_singleton, hstatements]
      rfl
    | cons next rest =>
      rw [runsThrough, Bool.and_eq_true] at hthrough
      obtain ⟨after, hafter⟩ := Evaluation.programResult_append _ hthrough.1
      have hmachine : (runSource settings source topFrame machine).machine = after := by
        obtain ⟨found, hfound⟩ := hafter none
        have hdone := hfound []
        rw [List.append_nil] at hdone
        exact machine_runSource (hclean source (.head _)) hdone
      obtain ⟨found, hfound⟩ := hafter result
      rw [hmachine] at hthrough
      obtain ⟨before, hrest, houtcomes⟩ := ih (List.cons_ne_nil _ _)
        (fun other hmem ↦ hclean other (.tail _ hmem)) hlast hthrough.2 found
      refine ⟨before, ?_, ?_⟩
      · rw [List.flatMap_cons, hfound, hrest, List.getLast_cons (List.cons_ne_nil _ _)]
      · rw [outcomes, hmachine, outcomes, List.getLast?_cons_cons, ← outcomes, houtcomes,
          List.getLast_cons (List.cons_ne_nil _ _)]

end Session

/-- A session whose texts run through is the program that they are joined to by semicolons. -/
theorem session_equals_joined_program (settings : Settings) (sources : List String)
    (hne : sources ≠ []) (hclosed : ∀ source ∈ sources, Closed source.toList)
    (hclean : ∀ source ∈ sources, (Program.ofSource source).problems = [])
    (hlast : (Program.ofSource (sources.getLast hne)).program.statements ≠ [])
    (hthrough : Session.runsThrough settings sources Machine.start) :
    Program.ofSource (";".intercalate sources) =
        ⟨⟨sources.flatMap fun source ↦ (Program.ofSource source).program.statements⟩, []⟩ ∧
      (Session.outcomes settings sources Machine.start).getLast? =
        some (runSource settings (";".intercalate sources) topFrame Machine.start) := by
  have hjoined := Program.ofSource_joined hne hclosed hclean
  refine ⟨hjoined, ?_⟩
  obtain ⟨before, hresult, houtcome⟩ :=
    Session.exists_before_last hne hclean hlast hthrough none
  rw [houtcome, Option.some_inj]
  refine Session.runSource_congr (hclean _ (List.getLast_mem hne)) ?_ ?_
  · rw [hjoined]
  · rw [← hresult, hjoined]

/-- A semicolon in a string, a text without statements, and a function that sees a later binding. -/
theorem session_equals_joined_program_of_later_binding :
    let sources := ["let f = fn(x) \x7b if (x) \x7b return \"a; b\" \x7d c \x7d", " ",
      "puts(f(true)); let c = [1];", "f(false)"]
    (Session.outcomes {} sources Machine.start).getLast? =
      some (runSource {} (";".intercalate sources) topFrame Machine.start) :=
  (session_equals_joined_program {} _ (by decide) (by decide +kernel) (by decide +kernel)
    (by decide +kernel) (by decide +kernel)).2

end MonkeyLang
