import MonkeyLang.Command

/-!
The program: looks up the files that the options name, runs the command, and shows and writes what
it reports, without colours. The shell reads and answers line by line.
-/

set_option autoImplicit false

namespace MonkeyLang.Main

open Command

/-- The number of the system error that a directory gives when it is read as a file. -/
def directoryErrorCode : UInt32 := 21

def add (tree : FileTree) (location : Location) : IO FileTree := do
  try
    return tree.write location (← IO.FS.readFile (pathOf location))
  catch
    | .inappropriateType _ code _ =>
      if code = directoryErrorCode then
        return { tree with directories := location :: tree.directories }
      else return tree
    | _ => return tree

/-- The part of the files on disk that the walks along the paths can meet. -/
def lookUp (paths : List String) : IO FileTree :=
  (paths.flatMap FileTree.onTheWay).foldlM add {}

/-- The paths that a command with these options may open. -/
def pathsOf (options : Options) : List String :=
  options.debugFile.toList ++
    options.task.source?.toList.flatMap fun path => [plainPath path, documentPath path]

def finish : Except Crash Report → IO UInt32
  | .error crash => do
    IO.eprintln crash.message
    return 1
  | .ok report => do
    for (location, content) in report.files do
      IO.FS.writeFile (pathOf location) content
    IO.print report.stdout
    IO.eprint report.stderr
    return report.exitCode.toUInt32

/-- Answers the lines of the standard input until one stops the shell. -/
partial def interact (settings : Settings) (machine : Machine) : IO (Except Crash Machine) := do
  IO.print Shell.prompt
  (← IO.getStdout).flush
  let line ← (← IO.getStdin).getLine
  let line := if line.isEmpty then Shell.endMark else line
  match Shell.runLine .plain settings line machine with
  | .halted halt _ => return .error (.halted halt)
  | .done stop machine =>
    IO.print machine.outputText
    let machine := { machine with output := #[] }
    if stop then return .ok machine else interact settings machine

def runShell (options : Options) (tree : FileTree) : IO UInt32 := do
  match options.traceLocation? tree with
  | .error crash => finish (.error crash)
  | .ok trace =>
    IO.print Shell.intro
    let ended ← interact options.settings Machine.start
    let report : Report := {}
    finish (ended.map fun machine => report.withTrace trace machine.traceText)

def runTask (options : Options) : IO UInt32 := do
  let tree ← lookUp (pathsOf options)
  match options.task with
  | .shell => runShell options tree
  | _ => finish (options.run .plain tree "")

end MonkeyLang.Main

def main (arguments : List String) : IO UInt32 :=
  match MonkeyLang.Command.parseArguments arguments with
  | .run options => MonkeyLang.Main.runTask options
  | _ => MonkeyLang.Main.finish (MonkeyLang.Command.run .plain arguments {} "")
