import MonkeyLang.Session
import MonkeyLang.Text.Blank

/-!
The interactive shell. A line is source text, run on its own in the top-level frame that all lines
share, unless it is `exit` or the mark of the end of the input.
-/

set_option autoImplicit false

namespace MonkeyLang

/-- How texts are coloured: what is shown for a text, given the name of the colour and of further
attributes. -/
abbrev Coloring := (text color : String) → (attributes : List String) → String

namespace Coloring

/-- Without colours. -/
def plain : Coloring := fun text _ _ => text

/-- The colour of errors. -/
def error : String := "red"

end Coloring

namespace Run

def printLine (line : String) : Run Unit :=
  fun machine => .done () { machine with output := machine.output.push line }

def printLines : List String → Run Unit
  | [] => pure ()
  | line :: lines => do
    printLine line
    printLines lines

/-- Shows the value of a program, if it has one. An error is shown in its colour. -/
def printResult (colored : Coloring) : Option Value → Run Unit
  | none => pure ()
  | some (.error failure) =>
    printLine (colored (Value.error failure).text Coloring.error [])
  | some value => print none value

end Run

/-- The diagnostics as they are listed to the user. -/
def problemListing (problems : List Diagnostic) : List String :=
  "Parse failed with error(s):" :: problems.map fun problem => "    " ++ problem.message

namespace Shell

def intro : String :=
  "Monkey interpreter\nType 'exit' to leave.\n"

def prompt : String := "monkey> "

/-- The line that stands for the end of the input. -/
def endMark : String := "EOF"

/-- Runs a line and says whether the shell stops after it. -/
def runLine (colored : Coloring) (settings : Settings) (line : String) : Run Bool :=
  let text := Text.trimBlanks line
  if text = "" then pure false
  else if text = "exit" then pure true
  else if text = endMark then do
    Run.printLine ""
    return true
  else do
    let (problems, value) ← runSource settings text topFrame
    if problems.isEmpty then Run.printResult colored value
    else Run.printLines (problemListing problems)
    return false

/-- What a whole session on the given lines shows, from the first prompt on, and the machine at its
end. The trace of the machine is kept, its output is shown and cleared. -/
def transcript (colored : Coloring) (settings : Settings) : List String → String → Run String
  | lines, shown => fun machine =>
    match runLine colored settings (lines.headD endMark) machine with
    | .halted halt machine => .halted halt machine
    | .done stop machine =>
      let shown := shown ++ prompt ++ machine.outputText
      let machine := { machine with output := #[] }
      match stop, lines with
      | false, _ :: rest => transcript colored settings rest shown machine
      | _, _ => .done shown machine

end Shell

end MonkeyLang
