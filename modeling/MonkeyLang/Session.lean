import MonkeyLang.Evaluation
import MonkeyLang.Program.Parser

/-!
Running source text. A session keeps one machine with one frame of top-level variables, so later
texts see the bindings of earlier ones. A text with parse errors is not run at all.
-/

set_option autoImplicit false

namespace MonkeyLang

/-- The frame of the top-level variables. -/
def topFrame : FrameId := 0

namespace Machine

/-- A machine with nothing but an empty top-level frame. -/
def start : Machine :=
  { scopes := (Scopes.newFrame {} none).2 }

/-- The machine with what it has printed and traced taken away. -/
def flush (machine : Machine) : Machine :=
  { machine with output := #[], trace := #[] }

def outputText (machine : Machine) : String :=
  String.join (machine.output.toList.map (· ++ "\n"))

def traceText (machine : Machine) : String :=
  String.join (machine.trace.toList.map (·.text ++ "\n"))

end Machine

/-- The diagnostics of a text, and the value that it gives when it has none. -/
def runSource (settings : Settings) (source : String) (frame : FrameId) :
    Run (List Diagnostic × Option Value) :=
  let parsed := Program.ofSource source
  if parsed.problems.isEmpty then do
    return ([], ← parsed.program.run settings frame)
  else pure (parsed.problems, none)

end MonkeyLang
