import Mathlib.Tactic
import MonkeyLang.Proofs.Command.Arguments
import MonkeyLang.Proofs.Document.Text

/-!
# A program runs from its document as from its source

A source that cannot be parsed is reported in the same way when it is to be run and when its
document is to be written, and nothing is written for it. For any other source the document is
written, and running the document afterwards gives the report of running the source: its output, its
exit code and its trace.

The trace file is emptied before a run reads anything, so it must be neither the source nor the
document. The document stands beside the source, in a file whose name is longer; for a path that
ends in a slash or in a dot that is not the path with the same suffix.
-/

set_option autoImplicit false

namespace MonkeyLang.Command

/-! ### Reading text -/

theorem unifyLineEnds_of_not_mem {text : List Char} (h : '\r' ∉ text) :
    unifyLineEnds text = text := by
  induction text with
  | nil => rfl
  | cons c text ih =>
    rw [List.mem_cons, not_or] at h
    have hc : c ≠ '\r' := Ne.symm h.1
    simp [unifyLineEnds, hc, ih h.2]

section Reading

variable {tree : FileTree} {location : Location} {content path source : String}

theorem readText_eq_some_iff :
    readText tree path = .ok (some source) ↔
      ∃ text, tree.read (plainPath path) = .ok (some text) ∧
        String.ofList (unifyLineEnds text.toList) = source := by
  unfold readText
  cases tree.read (plainPath path) with
  | error error => simp
  | ok found => cases found <;> simp

theorem readText_write_of_ne (h : tree.Placed location)
    (hread : readText tree path = .ok (some source))
    (hne : tree.locate (plainPath path).toList ≠ .ok location) :
    readText (tree.write location content) path = .ok (some source) := by
  rw [readText_eq_some_iff] at hread ⊢
  obtain ⟨text, htext, hsource⟩ := hread
  exact ⟨text, FileTree.read_write_of_ne h htext hne, hsource⟩

theorem readText_write_self (htarget : tree.target (plainPath path) = .ok location)
    (hcontent : '\r' ∉ content.toList) :
    readText (tree.write location content) path = .ok (some content) := by
  rw [readText_eq_some_iff]
  refine ⟨content, FileTree.read_write_self htarget, ?_⟩
  rw [unifyLineEnds_of_not_mem hcontent, String.ofList_toList]

end Reading

/-! ### The trace file -/

section Trace

variable {options : Options} {tree : FileTree} {trace : Option Location} {location : Location}
  {content path source : String}

theorem traceLocation?_eq_ok_iff :
    options.traceLocation? tree = .ok trace ↔
      (options.verbosity = 0 ∧ trace = none) ∨
        (options.verbosity ≠ 0 ∧ ∃ path location, options.debugFile = some path ∧
          tree.target path = .ok location ∧ trace = some location) := by
  unfold Options.traceLocation?
  by_cases hverbosity : options.verbosity = 0
  · simp [hverbosity, eq_comm]
  · rw [if_neg hverbosity]
    cases options.debugFile with
    | none => simp [hverbosity]
    | some path =>
      unfold openToWrite
      cases htarget : tree.target path with
      | error error => simp [hverbosity, htarget, bind, Except.bind]
      | ok location => simp [hverbosity, htarget, eq_comm]

/-- A trace file is found at the same place after another file has been written. -/
theorem traceLocation?_write (content : String) (h : tree.Placed location)
    (htrace : options.traceLocation? tree = .ok trace) :
    options.traceLocation? (tree.write location content) = .ok trace := by
  rw [traceLocation?_eq_ok_iff] at htrace ⊢
  refine htrace.imp id ?_
  rintro ⟨hverbosity, path, place, hpath, htarget, hplace⟩
  exact ⟨hverbosity, path, place, hpath, FileTree.target_write h htarget, hplace⟩

theorem placed_of_traceLocation? (htrace : options.traceLocation? tree = .ok (some location)) :
    tree.Placed location := by
  rcases traceLocation?_eq_ok_iff.mp htrace with ⟨-, hnone⟩ | ⟨-, path, place, -, htarget, hplace⟩
  · cases hnone
  · obtain rfl := Option.some.inj hplace
    exact FileTree.placed_of_target htarget

/-- The trace, if there is one, goes to another file than the one at the path. -/
def TraceApart (tree : FileTree) (trace : Option Location) (path : String) : Prop :=
  ∀ location ∈ trace, tree.locate (plainPath path).toList ≠ .ok location

/-- A file other than the trace file is read as if there were no trace. -/
theorem readText_emptied (htrace : options.traceLocation? tree = .ok trace)
    (hread : readText tree path = .ok (some source)) (hapart : TraceApart tree trace path) :
    readText (emptied tree trace) path = .ok (some source) := by
  cases trace with
  | none => exact hread
  | some location =>
    exact readText_write_of_ne (placed_of_traceLocation? htrace) hread (hapart location rfl)

theorem TraceApart.write (hapart : TraceApart tree trace path)
    (htarget : tree.target (plainPath path) = .ok location) :
    TraceApart (tree.write location content) trace path := by
  intro place hplace hlocate
  have hlocated := (FileTree.target_eq_ok_iff.mp htarget).2.1
  rw [FileTree.locate_write (FileTree.placed_of_target htarget) hlocated] at hlocate
  exact hapart place hplace (hlocated.trans hlocate)

end Trace

/-! ### Runs -/

section Runs

variable (colored : Coloring) {options : Options} {tree : FileTree} {trace : Option Location}
  {path source : String}

theorem emit_of_problems (hread : readText tree path = .ok (some source))
    (hproblems : (Program.ofSource source).problems ≠ []) :
    emit colored tree path = .ok (parseFailed (Program.ofSource source).problems) := by
  simp [emit, hread, hproblems]

theorem emit_of_clean {location : Location} (hread : readText tree path = .ok (some source))
    (hproblems : (Program.ofSource source).problems = [])
    (htarget : tree.target (documentPath path) = .ok location) :
    emit colored tree path = .ok
      { stdout := documentPath path ++ "\n"
        files := [(location, (Program.ofSource source).program.document.indented)] } := by
  simp [emit, hread, hproblems, openToWrite, htarget]

theorem runFile_of_problems (htrace : options.traceLocation? tree = .ok trace)
    (hread : readText (emptied tree trace) path = .ok (some source))
    (hproblems : (Program.ofSource source).problems ≠ []) :
    runFile colored options tree path =
      .ok ((parseFailed (Program.ofSource source).problems).withTrace trace "") := by
  simp [runFile, htrace, hread, hproblems]

theorem runFile_of_clean (htrace : options.traceLocation? tree = .ok trace)
    (hread : readText (emptied tree trace) path = .ok (some source))
    (hproblems : (Program.ofSource source).problems = []) :
    runFile colored options tree path =
      runReport colored trace
        ((Program.ofSource source).program.run options.settings topFrame) := by
  simp [runFile, htrace, hread, hproblems]

/-- A document that has been written is run as the program that it was written for. -/
theorem runDocument_written {location : Location} (source : String)
    (htrace : options.traceLocation? tree = .ok trace) (hapart : TraceApart tree trace path)
    (htarget : tree.target (plainPath path) = .ok location) :
    runDocument colored options
        (tree.write location (Program.ofSource source).program.document.indented) path =
      runReport colored trace
        ((Program.ofSource source).program.run options.settings topFrame) := by
  have hlegible := Program.legible_document source
  have hjson := Json.ofString_indented hlegible
  have hwritten := readText_write_self htarget (Json.not_mem_indentedAt _ hlegible 0)
  rw [← Json.indented] at hwritten
  have htrace' := traceLocation?_write (Program.ofSource source).program.document.indented
    (FileTree.placed_of_target htarget) htrace
  have hread := readText_emptied htrace' hwritten (hapart.write htarget)
  simp [runDocument, htrace', hread, hjson, Document.readProgram_document]

end Runs

theorem documentPath_eq {path : String} (h : EndsInName path) :
    documentPath path = plainPath (path ++ ".ast.json") :=
  (plainPath_append h rfl (by decide)).symm

/-- With any options on tracing, a source with problems is reported alike when it is run and when
its document is to be written, and then nothing but an empty trace is written. Of any other source
the document is written, and from the document the program then runs as from its source, with the
same output, exit code and trace, whatever the colours are.

Assumes: the trace file can be opened and is neither the source nor the document, the path ends in
a name, and the document can be written. -/
theorem document_runs_like_source {arguments : List String} {options : Options}
    {tree : FileTree} {path source : String} {trace : Option Location} (colored : Coloring)
    (input : String) (harguments : TraceArguments arguments options) (hne : path ≠ "")
    (hrepl : path ≠ "repl") (hdash : path.toList.head? ≠ some '-')
    (hsource : readText tree path = .ok (some source))
    (htrace : options.traceLocation? tree = .ok trace) (hapart : TraceApart tree trace path) :
    let parsed := Program.ofSource source
    let listing := lines (problemListing parsed.problems)
    let document := path ++ ".ast.json"
    (parsed.problems ≠ [] →
      run colored (arguments ++ [path]) tree input =
          .ok { exitCode := 1, stdout := listing, files := (trace.map (·, "")).toList } ∧
        run colored (arguments ++ ["--emit-ast", path]) tree input =
          .ok { exitCode := 1, stdout := listing, files := [] }) ∧
    (parsed.problems = [] → EndsInName path → TraceApart tree trace document →
      ∀ location, tree.target (plainPath document) = .ok location →
        ∃ text,
          run colored (arguments ++ ["--emit-ast", path]) tree input =
              .ok
                { exitCode := 0, stdout := plainPath document ++ "\n",
                  files := [(location, text)] } ∧
            run colored (arguments ++ ["--ast", document]) (tree.write location text) input =
              run colored (arguments ++ [path]) tree input) := by
  intro parsed listing document
  have hread := readText_emptied htrace hsource hapart
  rw [harguments.run_file hdash hrepl, harguments.run_emit hdash hne]
  constructor
  · intro hproblems
    exact ⟨runFile_of_problems colored htrace hread hproblems,
      emit_of_problems colored hsource hproblems⟩
  · intro hproblems hname hdocument location htarget
    have hstart : document.toList.head? ≠ some '-' := by
      rw [String.toList_append, List.head?_append_of_ne_nil _ (by simpa using hne)]
      exact hdash
    refine ⟨parsed.program.document.indented, ?_, ?_⟩
    · rw [← documentPath_eq hname] at htarget ⊢
      exact emit_of_clean colored hsource hproblems htarget
    · rw [harguments.run_document hstart (by simp [document]),
        runDocument_written colored source htrace hdocument htarget,
        runFile_of_clean colored htrace hread hproblems]

/-- A program that is traced into a file of its own. -/
theorem document_runs_like_source_of_traced_call :
    let tree : FileTree := { files := [(["d", "p"], "let f = fn(x) \x7b x \x7d; f(2)\r\n")] }
    let arguments := ["-vv", "--debug", "t.txt"]
    ∃ text,
      run .plain (arguments ++ ["--emit-ast", "./d/p"]) tree "" =
          .ok { exitCode := 0, stdout := "d/p.ast.json\n",
                files := [(["d", "p.ast.json"], text)] } ∧
        run .plain (arguments ++ ["--ast", "./d/p.ast.json"])
            (tree.write ["d", "p.ast.json"] text) "" =
          run .plain (arguments ++ ["./d/p"]) tree "" := by
  intro tree arguments
  have harguments : TraceArguments arguments { verbosity := 2, debugFile := some "t.txt" } :=
    ⟨rfl, by decide, rfl, rfl, rfl⟩
  have hsource : readText tree "./d/p" = .ok (some "let f = fn(x) \x7b x \x7d; f(2)\n") := rfl
  have htrace : Options.traceLocation? { verbosity := 2, debugFile := some "t.txt" } tree =
      .ok (some ["t.txt"]) := rfl
  have hapart : TraceApart tree (some ["t.txt"]) "./d/p" := by
    rintro location ⟨⟩
    decide +kernel
  have hdocument : TraceApart tree (some ["t.txt"]) ("./d/p" ++ ".ast.json") := by
    rintro location ⟨⟩
    decide +kernel
  exact (document_runs_like_source .plain "" harguments (by decide) (by decide) (by decide) hsource
    htrace hapart).2 (by decide +kernel) (by decide) hdocument ["d", "p.ast.json"] rfl

/-- What a command shows, if it ends with a report. -/
def shown (result : Except Crash Report) : Option (Nat × String) :=
  result.toOption.map fun report ↦ (report.exitCode, report.stdout)

/-- Where the conditions do not hold, running the document and running the source differ. -/
theorem document_run_differs_from_source_run :
    let tree : FileTree := { files := [(["p"], "1")] }
    let broken : FileTree := { files := [(["p"], ")")] }
    let written := tree.write ["p.ast.json"] (Program.ofSource "1").program.document.indented
    -- The trace goes to the source, so that its problem is not seen.
    (shown (run .plain ["-v", "--debug-file=p", "p"] broken "") = some (0, "") ∧
      (shown (run .plain ["-v", "--debug-file=p", "--emit-ast", "p"] broken "")).map Prod.fst =
        some 1) ∧
    -- The trace cannot be written, so that no problem is reported.
    (shown (run .plain ["-v", "--debug-file=d/t", "p"] broken "") = none ∧
      (shown (run .plain ["-v", "--debug-file=d/t", "--emit-ast", "p"] broken "")).map Prod.fst =
        some 1) ∧
    -- The trace goes to the document.
    (shown (run .plain ["-v", "--debug-file=p.ast.json", "p"] tree "") = some (0, "1\n") ∧
      shown (run .plain ["-v", "--debug-file=p.ast.json", "--ast", "p.ast.json"] written "") =
        some (1, "")) ∧
    -- The path ends in a slash.
    (shown (run .plain ["p/"] tree "") = some (0, "1\n") ∧
      shown (run .plain ["--emit-ast", "p/"] tree "") = some (0, "p.ast.json\n") ∧
      shown (run .plain ["--ast", "p/.ast.json"] written "") = some (1, "")) ∧
    -- The document would replace a directory.
    (shown (run .plain ["p"] { tree with directories := [["p.ast.json"]] } "") = some (0, "1\n") ∧
      shown (run .plain ["--emit-ast", "p"] { tree with directories := [["p.ast.json"]] } "") =
        none) := by
  decide +kernel

end MonkeyLang.Command
