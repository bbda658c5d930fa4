import MonkeyLang.Command.Arguments
import MonkeyLang.Command.FileTree
import MonkeyLang.Command.Path
import MonkeyLang.Document
import MonkeyLang.Document.Reader
import MonkeyLang.Json.Reader
import MonkeyLang.Json.Writer
import MonkeyLang.Shell

/-!
The command line. A program is run from its source or from a document of its tree, a source can be
turned into such a document, and without a program the shell is started. What the command shows
and writes is a function of its arguments, the files it reads, its input and the way texts are
coloured.
-/

set_option autoImplicit false

namespace MonkeyLang.Command

/-- What a command leaves behind; the files are those that it has written. -/
structure Report where
  exitCode : Nat := 0
  stdout : String := ""
  stderr : String := ""
  files : List (Location × String) := []

/-- What ends a command without a report. -/
inductive Crash where
  | halted (halt : Halt)
  | infinite
  | tooManyDigits (count : Nat)
  | file (error : FileError) (path : String)
  /-- The trace file was given no path. -/
  | noTracePath

def FileError.message (path : String) : FileError → String
  | .noSuchFile => "[Errno 2] No such file or directory: " ++ Text.quoted path
  | .notDirectory => "[Errno 20] Not a directory: " ++ Text.quoted path
  | .isDirectory => "[Errno 21] Is a directory: " ++ Text.quoted path
  | .nameTooLong => "[Errno 36] File name too long: " ++ Text.quoted path
  | .nulCharacter => "embedded null byte"

def Crash.message : Crash → String
  | .halted halt => halt.message
  | .infinite => Document.Fault.infinite.message
  | .tooManyDigits count => (Json.Reader.Cause.tooManyDigits count).text
  | .file error path => error.message path
  | .noTracePath => "expected str, bytes or os.PathLike object, not list"

/-- The text of a file, with every line ending turned into a line feed. -/
def unifyLineEnds : List Char → List Char
  | '\r' :: '\n' :: rest => '\n' :: unifyLineEnds rest
  | '\r' :: rest => '\n' :: unifyLineEnds rest
  | c :: rest => c :: unifyLineEnds rest
  | [] => []

def readText (tree : FileTree) (path : String) : Except Crash (Option String) :=
  match tree.read (plainPath path) with
  | .error error => .error (.file error (plainPath path))
  | .ok found => .ok (found.map fun text => .ofList (unifyLineEnds text.toList))

def openToWrite (tree : FileTree) (path : String) : Except Crash Location :=
  match tree.target path with
  | .error error => .error (.file error path)
  | .ok location => .ok location

def lines (text : List String) : String :=
  String.join (text.map (· ++ "\n"))

def errorLine (colored : Coloring) (text : String) : String :=
  colored "error: " Coloring.error ["bold"] ++ text ++ "\n"

def notFound (colored : Coloring) (path : String) : Report :=
  { exitCode := 1, stderr := errorLine colored ("file " ++ plainPath path ++ " not found") }

def parseFailed (problems : List Diagnostic) : Report :=
  { exitCode := 1, stdout := lines (problemListing problems) }

/-- Where the document of a source file is written. -/
def documentPath (path : String) : String :=
  plainPath path ++ ".ast.json"

def emit (colored : Coloring) (tree : FileTree) (path : String) : Except Crash Report := do
  match ← readText tree path with
  | none => return notFound colored path
  | some source =>
    let parsed := Program.ofSource source
    if parsed.problems.isEmpty then
      let location ← openToWrite tree (documentPath path)
      return {
        stdout := documentPath path ++ "\n"
        files := [(location, parsed.program.document.indented)] }
    else return parseFailed parsed.problems

def Options.settings (options : Options) : Settings :=
  { verbosity := options.verbosity }

/-- Where the trace goes, if one is asked for. -/
def Options.traceLocation? (options : Options) (tree : FileTree) :
    Except Crash (Option Location) :=
  if options.verbosity = 0 then .ok none
  else
    match options.debugFile with
    | none => .error .noTracePath
    | some path => return some (← openToWrite tree path)

/-- The files as a run finds them: its trace file is emptied before anything is read. -/
def emptied (tree : FileTree) : Option Location → FileTree
  | none => tree
  | some location => tree.write location ""

/-- Adds the trace file to the report of a run. -/
def Report.withTrace (report : Report) (trace : Option Location) (text : String) : Report :=
  { report with files := report.files ++ (trace.map (·, text)).toList }

/-- The report on a program's run: its output, then its value. An error is reported by the exit
code too. -/
def runReport (colored : Coloring) (trace : Option Location) (run : Run (Option Value)) :
    Except Crash Report :=
  let shown : Run Bool := do
    let result ← run
    Run.printResult colored result
    return (result.map Value.isError).getD false
  match shown Machine.start with
  | .halted halt _ => .error (.halted halt)
  | .done failed machine =>
    let report : Report := { exitCode := if failed then 1 else 0, stdout := machine.outputText }
    .ok (report.withTrace trace machine.traceText)

def runFile (colored : Coloring) (options : Options) (tree : FileTree) (path : String) :
    Except Crash Report := do
  let trace ← options.traceLocation? tree
  match ← readText (emptied tree trace) path with
  | none => return (notFound colored path).withTrace trace ""
  | some source =>
    let parsed := Program.ofSource source
    if parsed.problems.isEmpty then
      runReport colored trace (parsed.program.run options.settings topFrame)
    else return (parseFailed parsed.problems).withTrace trace ""

def invalidDocument (colored : Coloring) (path reason : String) : Report :=
  { exitCode := 1, stderr := errorLine colored ("invalid AST file " ++ path ++ ": " ++ reason) }

def runDocument (colored : Coloring) (options : Options) (tree : FileTree) (path : String) :
    Except Crash Report := do
  let trace ← options.traceLocation? tree
  match ← readText (emptied tree trace) path with
  | none => return (notFound colored path).withTrace trace ""
  | some text =>
    match Json.ofString text with
    | .error ⟨.tooManyDigits count, _⟩ => .error (.tooManyDigits count)
    | .error refusal =>
      return (invalidDocument colored path (refusal.message text.toList)).withTrace trace ""
    | .ok document =>
      match Document.readProgram document with
      | .error .infinite => .error .infinite
      | .error fault => return (invalidDocument colored path fault.message).withTrace trace ""
      | .ok program => runReport colored trace (program.run options.settings topFrame)

/-- The lines of an input text; a last line need not be ended. -/
def inputLines (input : String) : List String :=
  let pieces := input.toList.splitOnP (· = '\n')
  (if pieces.getLast? = some [] then pieces.dropLast else pieces).map .ofList

def runShell (colored : Coloring) (options : Options) (tree : FileTree) (input : String) :
    Except Crash Report := do
  let trace ← options.traceLocation? tree
  match Shell.transcript colored options.settings (inputLines input) Shell.intro Machine.start with
  | .halted halt _ => .error (.halted halt)
  | .done shown machine =>
    let report : Report := { stdout := shown }
    return report.withTrace trace machine.traceText

/-- What the options ask for. An empty path counts as none. -/
inductive Task where
  | emit (path : String)
  | document (path : String)
  | shell
  | file (path : String)

def Options.task (options : Options) : Task :=
  match options.emitAst.filter (· ≠ ""), options.ast.filter (· ≠ "") with
  | some path, _ => .emit path
  | none, some path => .document path
  | none, none =>
    match options.program with
    | none => .shell
    | some path => if path = "repl" then .shell else .file path

/-- The path that the task reads from. -/
def Task.source? : Task → Option String
  | .emit path | .document path | .file path => some path
  | .shell => none

def Options.run (colored : Coloring) (options : Options) (tree : FileTree) (input : String) :
    Except Crash Report :=
  match options.task with
  | .emit path => emit colored tree path
  | .document path => runDocument colored options tree path
  | .shell => runShell colored options tree input
  | .file path => runFile colored options tree path

def run (colored : Coloring) (arguments : List String) (tree : FileTree) (input : String) :
    Except Crash Report :=
  match parseArguments arguments with
  | .help => .ok { stdout := helpText }
  | .refused error =>
    .ok { exitCode := 2, stderr := usage ++ "monkey: error: " ++ error.message ++ "\n" }
  | .run options => options.run colored tree input

end MonkeyLang.Command
