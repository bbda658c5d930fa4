import Mathlib.Tactic
import MonkeyLang.Proofs.Command.Files

/-!
# Options in front of a program

Arguments that are options only, in whatever spelling, leave what follows to be taken as if it stood
alone: a program, or the option that names a source or a document. So a command that is given
options on tracing and then what to do is the task with these options.
-/

set_option autoImplicit false

namespace MonkeyLang.Command

/-! ### What acting on options leaves alone -/

/-- The same positional arguments have been taken. -/
structure Progress.SameTaken (before after : Progress) : Prop where
  extras : after.extras = before.extras
  programTaken : after.programTaken = before.programTaken
  program : after.options.program = before.options.program

theorem Progress.sameTaken_act {before after : Progress} {flag : Flag} {value : Option String}
    (h : before.act flag value = .ok after) : before.SameTaken after := by
  cases flag with
  | help => cases h
  | verbose | debugFile =>
    obtain rfl := Except.ok.inj h
    exact ⟨rfl, rfl, rfl⟩
  | emitAst | ast =>
    simp only [Progress.act] at h
    split_ifs at h
    obtain rfl := Except.ok.inj h
    exact ⟨rfl, rfl, rfl⟩

theorem Progress.SameTaken.trans {first second third : Progress} (h : first.SameTaken second)
    (h' : second.SameTaken third) : first.SameTaken third :=
  ⟨h'.extras.trans h.extras, h'.programTaken.trans h.programTaken, h'.program.trans h.program⟩

theorem Progress.sameTaken_actEach {before after : Progress} {flags : List Flag}
    (h : before.actEach flags = .ok after) : before.SameTaken after := by
  induction flags generalizing before with
  | nil =>
    obtain rfl := Except.ok.inj h
    exact ⟨rfl, rfl, rfl⟩
  | cons flag flags ih =>
    rw [Progress.actEach, bind_eq_ok_iff] at h
    obtain ⟨middle, hact, hrest⟩ := h
    exact (sameTaken_act hact).trans (ih hrest)

/-! ### Positional arguments -/

/-- A positional argument has been taken or refused. -/
def Progress.Occupied (progress : Progress) : Prop :=
  progress.extras ≠ [] ∨ progress.options.program ≠ none

/-- No positional argument has been taken. -/
structure Progress.Fresh (progress : Progress) : Prop where
  extras : progress.extras = []
  programTaken : progress.programTaken = false
  program : progress.options.program = none

theorem Progress.SameTaken.occupied {before after : Progress} (h : before.SameTaken after)
    (hoccupied : before.Occupied) : after.Occupied := by
  rwa [Progress.Occupied, h.extras, h.program]

theorem Progress.SameTaken.fresh {before after : Progress} (h : before.SameTaken after)
    (hfresh : before.Fresh) : after.Fresh :=
  ⟨h.extras.trans hfresh.extras, h.programTaken.trans hfresh.programTaken,
    h.program.trans hfresh.program⟩

theorem Progress.occupied_finish {progress : Progress} (h : progress.Occupied)
    (arguments : List Argument) : (progress.finish arguments).Occupied := by
  have hextras (more : List String) (hne : progress.extras ≠ []) :
      progress.extras ++ more ≠ [] :=
    List.append_ne_nil_of_left_ne_nil hne more
  unfold Progress.finish
  dsimp only
  split_ifs
  · exact h.imp (hextras _) id
  · split
    · exact .inr nofun
    · exact .inr nofun
    · exact .inr nofun
    · exact h
    · exact h.imp (hextras _) id

theorem Progress.occupied_finish_plain (progress : Progress) (text : String)
    (arguments : List Argument) : (progress.finish (.plain text :: arguments)).Occupied := by
  unfold Progress.finish
  dsimp only
  split_ifs
  · exact .inl (by simp [Argument.leftover])
  · split
    · exact .inr nofun
    · exact .inr nofun
    · exact .inr nofun
    · rename_i hnil
      cases hnil
    · rename_i hplain _
      exact absurd rfl (hplain text arguments)

/-- A plain argument at the end is taken as the program. -/
theorem Progress.finish_plain {progress : Progress} (h : progress.programTaken = false)
    (text : String) :
    progress.finish [.plain text] =
      { progress with
        options := { progress.options with program := some text }
        programTaken := true } := by
  simp [Progress.finish, h]

/-- What has been taken stays taken. -/
theorem occupied_takeAll {arguments : List Argument} {before after : Progress}
    (h : before.Occupied) (htake : takeAll arguments before = .ok after) : after.Occupied := by
  fun_induction takeAll arguments before with
  | case1 => exact Except.ok.inj htake ▸ h
  | case2 text rest before ih => exact ih (.inl (by simp)) htake
  | case3 _ _ _ _ _ _ ih | case4 _ _ _ _ _ _ ih | case6 _ _ _ _ _ ih =>
    obtain ⟨middle, hact, hrest⟩ := bind_eq_ok_iff.mp htake
    exact ih middle ((Progress.sameTaken_act hact).occupied h) hrest
  | case5 => cases htake
  | case7 flag rest before hvalue value ih =>
    obtain ⟨flags, -, hflags⟩ := bind_eq_ok_iff.mp htake
    obtain ⟨middle, hact, hrest⟩ := bind_eq_ok_iff.mp hflags
    exact ih middle ((Progress.sameTaken_actEach hact).occupied h) hrest
  | case8 => cases htake
  | case9 rest before hoption text htaken _ _ ih => exact ih (.inl (by simp)) htake
  | case10 rest before hoption text htaken _ _ ih => exact ih (.inr nofun) htake
  | case11 argument rest before _ _ hoption _ ih => exact ih h htake
  | case12 argument rest before _ _ hoption =>
    exact Except.ok.inj htake ▸ Progress.occupied_finish h _

/-- Arguments that take nothing but options leave those behind them as they are. -/
theorem takeAll_append {arguments : List Argument} {before after : Progress}
    (hdashes : Argument.dashes ∉ arguments) (hfresh : before.Fresh)
    (htake : takeAll arguments before = .ok after) (hafter : ¬ after.Occupied)
    (more : List Argument) :
    after.Fresh ∧ takeAll (arguments ++ more) before = takeAll more after := by
  fun_induction takeAll arguments before with
  | case1 =>
    obtain rfl := Except.ok.inj htake
    exact ⟨hfresh, rfl⟩
  | case2 text rest before ih => exact absurd (occupied_takeAll (.inl (by simp)) htake) hafter
  | case3 flag short rest before hvalue value ih =>
    obtain ⟨middle, hact, hrest⟩ := bind_eq_ok_iff.mp htake
    obtain ⟨hfresh', heq⟩ := ih middle (fun hmem ↦ hdashes (.tail _ hmem))
      ((Progress.sameTaken_act hact).fresh hfresh) hrest
    refine ⟨hfresh', ?_⟩
    rw [List.cons_append, takeAll, if_pos hvalue]
    simp only [hact, ok_bind]
    exact heq
  | case4 flag short before hvalue text rest ih =>
    obtain ⟨middle, hact, hrest⟩ := bind_eq_ok_iff.mp htake
    obtain ⟨hfresh', heq⟩ := ih middle (fun hmem ↦ hdashes (.tail _ (.tail _ hmem)))
      ((Progress.sameTaken_act hact).fresh hfresh) hrest
    refine ⟨hfresh', ?_⟩
    rw [List.cons_append, List.cons_append, takeAll, if_pos hvalue]
    simp only [hact, ok_bind]
    exact heq
  | case5 => cases htake
  | case6 flag short rest before hvalue ih =>
    obtain ⟨middle, hact, hrest⟩ := bind_eq_ok_iff.mp htake
    obtain ⟨hfresh', heq⟩ := ih middle (fun hmem ↦ hdashes (.tail _ hmem))
      ((Progress.sameTaken_act hact).fresh hfresh) hrest
    refine ⟨hfresh', ?_⟩
    rw [List.cons_append, takeAll.eq_def]
    simp only [if_neg hvalue, hact, ok_bind]
    exact heq
  | case7 flag rest before hvalue value ih =>
    obtain ⟨flags, hletters, hflags⟩ := bind_eq_ok_iff.mp htake
    obtain ⟨middle, hact, hrest⟩ := bind_eq_ok_iff.mp hflags
    obtain ⟨hfresh', heq⟩ := ih middle (fun hmem ↦ hdashes (.tail _ hmem))
      ((Progress.sameTaken_actEach hact).fresh hfresh) hrest
    refine ⟨hfresh', ?_⟩
    rw [List.cons_append, takeAll, if_neg hvalue]
    simp only [if_true, hletters, hact, ok_bind]
    exact heq
  | case8 => cases htake
  | case9 rest before hoption text htaken =>
    exact absurd (occupied_takeAll (.inl (by simp)) htake) hafter
  | case10 rest before hoption text htaken =>
    exact absurd (occupied_takeAll (.inr (by simp)) htake) hafter
  | case11 argument rest before hunknown hoption _ hplain =>
    cases argument with
    | plain text => exact absurd rfl (hplain text)
    | dashes => exact absurd List.mem_cons_self hdashes
    | option flag short attached => exact absurd rfl (hoption flag short attached)
    | unknownOption text => exact absurd rfl (hunknown text)
  | case12 argument rest before hunknown hoption =>
    obtain rfl := Except.ok.inj htake
    cases argument with
    | plain text => exact absurd (before.occupied_finish_plain text rest) hafter
    | dashes => exact absurd List.mem_cons_self hdashes
    | option flag short attached => exact absurd rfl (hoption flag short attached)
    | unknownOption text => exact absurd rfl (hunknown text)

/-! ### Classified arguments -/

theorem withoutFlag_ne_dashes (text : String) (afterDash : List Char) :
    withoutFlag text afterDash ≠ .dashes := by
  unfold withoutFlag
  split_ifs <;> nofun

theorem classifyLong_ne_dashes (text : String) : classifyLong text ≠ .ok .dashes := by
  unfold classifyLong
  dsimp only
  split
  · simpa using withoutFlag_ne_dashes _ _
  · nofun
  · nofun

theorem classifyShort_ne_dashes (text : String) (letter : Char) (rest : List Char) :
    classifyShort text letter rest ≠ .dashes := by
  unfold classifyShort
  split
  · nofun
  · nofun
  · exact withoutFlag_ne_dashes _ _

theorem classify_ne_dashes (text : String) : classify text ≠ .ok .dashes := by
  unfold classify
  split
  · nofun
  · split
    · nofun
    · simpa using withoutFlag_ne_dashes _ _
  · exact classifyLong_ne_dashes text
  · simpa using classifyShort_ne_dashes _ _ _
  · nofun

theorem classifyAll_cons {text : String} (htext : text ≠ "--") (rest : List String) :
    classifyAll (text :: rest) =
      (do return (← classify text) :: (← classifyAll rest) : Except UsageError (List Argument)) := by
  simp [classifyAll]

theorem classifyAll_append {arguments more : List String} {classified after : List Argument}
    (hdashes : "--" ∉ arguments) (h : classifyAll arguments = .ok classified)
    (hmore : classifyAll more = .ok after) :
    Argument.dashes ∉ classified ∧ classifyAll (arguments ++ more) = .ok (classified ++ after) := by
  induction arguments generalizing classified with
  | nil =>
    obtain rfl := Except.ok.inj h
    exact ⟨List.not_mem_nil, hmore⟩
  | cons text rest ih =>
    rw [List.mem_cons, not_or] at hdashes
    rw [classifyAll_cons (Ne.symm hdashes.1), bind_eq_ok_iff] at h
    obtain ⟨argument, htext, h⟩ := h
    obtain ⟨arguments, hrest, hclassified⟩ := bind_eq_ok_iff.mp h
    obtain rfl := Except.ok.inj hclassified
    obtain ⟨hnone, heq⟩ := ih hdashes.2 hrest
    constructor
    · rw [List.mem_cons, not_or]
      refine ⟨?_, hnone⟩
      rintro rfl
      exact classify_ne_dashes text htext
    · rw [List.cons_append, classifyAll_cons (Ne.symm hdashes.1), htext, heq]
      rfl

theorem classify_plain {text : String} (h : text.toList.head? ≠ some '-') :
    classify text = .ok (.plain text) := by
  cases htext : text.toList with
  | nil => simp [classify, htext]
  | cons c rest =>
    have hc : c ≠ '-' := by
      rintro rfl
      exact h (by rw [htext, List.head?_cons])
    simp [classify, htext, hc]

/-! ### Tasks -/

/-- Arguments that only say what to trace: no program and no document is named, and further options
may follow. -/
structure TraceArguments (arguments : List String) (options : Options) : Prop where
  parses : parseArguments arguments = .run options
  noDashes : "--" ∉ arguments
  noProgram : options.program = none
  noSource : options.emitAst = none
  noDocument : options.ast = none

namespace TraceArguments

variable {arguments : List String} {options : Options}

/-- What follows is taken from where the options end. -/
theorem parseArguments_append (h : TraceArguments arguments options) {more : List String}
    {classified : List Argument} (hmore : classifyAll more = .ok classified)
    {result : Options} {taken : Bool}
    (htake : takeAll classified ⟨options, false, []⟩ = .ok ⟨result, taken, []⟩) :
    parseArguments (arguments ++ more) = .run result := by
  have hparses := h.parses
  unfold parseArguments at hparses
  split at hparses
  · cases hparses
  · rename_i first hfirst
    split at hparses
    · cases hparses
    · cases hparses
    · rename_i progress hprogress
      split_ifs at hparses with hextras
      obtain rfl := Request.run.inj hparses
      have hfree : ¬ progress.Occupied := by
        rw [Progress.Occupied, not_or, not_not, not_not]
        exact ⟨List.isEmpty_iff.mp hextras, h.noProgram⟩
      obtain ⟨hdashes, hall⟩ := classifyAll_append h.noDashes hfirst hmore
      obtain ⟨hfresh, heq⟩ := takeAll_append hdashes ⟨rfl, rfl, rfl⟩ hprogress hfree classified
      obtain ⟨options, programTaken, extras⟩ := progress
      obtain rfl : extras = [] := hfresh.extras
      obtain rfl : programTaken = false := hfresh.programTaken
      rw [parseArguments, hall]
      dsimp only
      rw [heq, htake]
      rfl

theorem classifyAll_plain {path : String} (hpath : path.toList.head? ≠ some '-') :
    classifyAll [path] = .ok [.plain path] := by
  have hne : path ≠ "--" := by
    rintro rfl
    exact hpath rfl
  rw [classifyAll_cons hne, classify_plain hpath]
  rfl

theorem run_file (h : TraceArguments arguments options) {path : String}
    (hpath : path.toList.head? ≠ some '-') (hrepl : path ≠ "repl")
    (colored : Coloring) (tree : FileTree) (input : String) :
    run colored (arguments ++ [path]) tree input = runFile colored options tree path := by
  have htake : takeAll [.plain path] ⟨options, false, []⟩ =
      .ok ⟨{ options with program := some path }, true, []⟩ :=
    congrArg Except.ok (Progress.finish_plain rfl path)
  have htask : ({ options with program := some path } : Options).task = .file path := by
    simp [Options.task, h.noSource, h.noDocument, hrepl]
  rw [run, h.parseArguments_append (classifyAll_plain hpath) htake]
  dsimp only
  rw [Options.run, htask]
  rfl

theorem filter_path {path : String} (hne : path ≠ "") :
    (some path).filter (· ≠ "") = some path := by
  simp [Option.filter, hne]

theorem run_emit (h : TraceArguments arguments options) {path : String}
    (hpath : path.toList.head? ≠ some '-') (hne : path ≠ "") (colored : Coloring)
    (tree : FileTree) (input : String) :
    run colored (arguments ++ ["--emit-ast", path]) tree input = emit colored tree path := by
  have hclassify : classifyAll ["--emit-ast", path] =
      .ok [.option .emitAst false none, .plain path] := by
    rw [classifyAll_cons (by decide), classifyAll_plain hpath]
    rfl
  have htake : takeAll [.option .emitAst false none, .plain path] ⟨options, false, []⟩ =
      .ok ⟨{ options with emitAst := some path }, false, []⟩ := by
    simp [takeAll, Flag.takesValue, Progress.act, h.noDocument]
  have htask : ({ options with emitAst := some path } : Options).task = .emit path := by
    simp only [Options.task, filter_path hne]
  rw [run, h.parseArguments_append hclassify htake]
  dsimp only
  rw [Options.run, htask]

theorem run_document (h : TraceArguments arguments options) {path : String}
    (hpath : path.toList.head? ≠ some '-') (hne : path ≠ "") (colored : Coloring)
    (tree : FileTree) (input : String) :
    run colored (arguments ++ ["--ast", path]) tree input =
      runDocument colored options tree path := by
  have hclassify : classifyAll ["--ast", path] = .ok [.option .ast false none, .plain path] := by
    rw [classifyAll_cons (by decide), classifyAll_plain hpath]
    rfl
  have htake : takeAll [.option .ast false none, .plain path] ⟨options, false, []⟩ =
      .ok ⟨{ options with ast := some path }, false, []⟩ := by
    simp [takeAll, Flag.takesValue, Progress.act, h.noSource]
  have htask : ({ options with ast := some path } : Options).task = .document path := by
    simp only [Options.task, filter_path hne, h.noSource, Option.filter_none]
  rw [run, h.parseArguments_append hclassify htake]
  dsimp only
  rw [Options.run, htask]
  rfl

end TraceArguments

end MonkeyLang.Command
