import MonkeyLang.Session

/-!
# Evaluation in direct style

A reference for what a program means, in which no result is looked at for errors or returned values.
A `return` leaves everything around it up to the nearest call, or to the end of the program, and
takes its value along; a runtime error leaves everything up to the end of the program. Both are
exits of an exception monad over the running machine, so that an operand, an argument or an element
is simply evaluated and used.

There is no limit on nested steps here, nor any on the room for the lines of the trace. The number
that the functions take only bounds the recursion, and a run that it is large enough for does not
depend on it.
-/

set_option autoImplicit false

namespace MonkeyLang

/-- What leaves the code around it at once. -/
inductive Exit where
  /-- Ends the nearest call, or the program. -/
  | returned (value : Value)
  /-- Ends the program. -/
  | failed (failure : Failure)

/-- Computations that may leave the code around them. -/
abbrev Direct (α : Type) := ExceptT Exit Run α

namespace Direct

/-- An error leaves where it arises. -/
def raise : Value → Direct Value
  | .error failure => throw (.failed failure)
  | value => return value

/-- The value of a body. A return ends it, an error goes on. -/
def callResult (body : Direct (Option Value)) : Direct Value :=
  tryCatch (do return (← body).getD .null) fun
    | .returned value => return value
    | .failed failure => throw (.failed failure)

def identifier (settings : Settings) (name : String) (frame : FrameId) : Direct Value := do
  match ← Run.getVariable frame name with
  | some value => return value
  | none =>
    match Entries.get? settings.builtins name with
    | some builtin => return .builtin builtin
    | none => throw (.failed ⟨.undefinedIdentifier, name⟩)

mutual

def evaluate (settings : Settings) : Nat → Expr → FrameId → Direct Value
  | 0, _, _ => ExceptT.lift (Run.halt .depth)
  | fuel + 1, expression, frame =>
    match expression with
    | .integer _ value => return .integer value
    | .string _ value => return .string value
    | .boolean _ value => return .boolean value
    | .identifier name => identifier settings name.value frame
    | .function _ parameters body => Run.makeFunction parameters body frame
    | .unary _ operator right => do
      let value ← evaluate settings fuel right frame
      raise (Value.unary operator value)
    | .binary _ left operator right => do
      let a ← evaluate settings fuel left frame
      let b ← evaluate settings fuel right frame
      raise (Value.binary operator a b)
    | .index _ left place => do
      let value ← evaluate settings fuel left frame
      let spot ← evaluate settings fuel place frame
      raise (Value.index value spot)
    | .array _ elements => do
      let values ← elements.mapM fun element => evaluate settings fuel element frame
      return .array values
    | .hash _ pairs => do
      let entries ← pairs.foldlM (fun done (pair : Expr × Expr) => do
        let key ← evaluate settings fuel pair.1 frame
        match key.key? with
        | none => throw (.failed ⟨.invalidHashKey, "type: " ++ key.typeName⟩)
        | some found =>
          let value ← evaluate settings fuel pair.2 frame
          return Entries.put found value done) []
      return .hash entries
    | .conditional _ condition consequence alternative => do
      let value ← evaluate settings fuel condition frame
      Evaluation.noteCondition settings none value
      if value.truthy then
        return (← execute settings fuel (.block consequence) frame).getD .null
      else
        match alternative with
        | some block => return (← execute settings fuel (.block block) frame).getD .null
        | none => return .null
    | .call _ callee arguments => do
      match ← evaluate settings fuel callee frame with
      | .function closure =>
        let inner ← Run.openFrame closure.frame
        (closure.parameters.zip arguments).forM fun (pair : Identifier × Expr) => do
          let value ← evaluate settings fuel pair.2 frame
          Run.setVariable inner pair.1.value value
        Evaluation.noteCall settings none callee arguments.length
        callResult (execute settings fuel (.block closure.body) inner)
      | .builtin builtin =>
        let values ← arguments.mapM fun argument => evaluate settings fuel argument frame
        Evaluation.noteBuiltin settings none builtin values
        raise (← builtin.call none values)
      | value => throw (.failed ⟨.callNonFunction, value.typeName⟩)

def execute (settings : Settings) : Nat → Stmt → FrameId → Direct (Option Value)
  | 0, _, _ => ExceptT.lift (Run.halt .depth)
  | fuel + 1, statement, frame =>
    match statement with
    | .expression _ expression => do return some (← evaluate settings fuel expression frame)
    | .block block =>
      block.statements.foldlM (fun _ inner => execute settings fuel inner frame) none
    | .returning _ expression => do throw (.returned (← evaluate settings fuel expression frame))
    | .binding _ name expression => do
      let value ← evaluate settings fuel expression frame
      Run.setVariable frame name.value value
      Evaluation.noteBinding settings none name.value value
      return none

end

/-- How the trace shows the end of a statement. -/
def shown : Except Exit (Option Value) → Option Value
  | .ok result => result
  | .error (.returned value) => some (.returned value)
  | .error (.failed failure) => some (.error failure)

/-- Runs a statement of the program and traces how it has ended. -/
def traced (settings : Settings) (statement : Stmt) (run : Direct (Option Value)) :
    Direct (Option Value) :=
  ExceptT.mk do
    let ended ← run.run
    Evaluation.noteStatement settings none statement (shown ended)
    return ended

/-- What a program gives whose statements have ended so. Both exits end here: a returned value and
an error are the result. -/
def result : Except Exit (Option Value) → Option Value
  | .ok found => found
  | .error (.returned value) => some value
  | .error (.failed failure) => some (.error failure)

def runProgram (settings : Settings) (fuel : Nat) (program : Program) (frame : FrameId) :
    Run (Option Value) := do
  let statements : Direct (Option Value) := program.statements.foldlM (fun _ statement =>
    traced settings statement (execute settings fuel statement frame)) none
  return result (← statements.run)

end Direct

end MonkeyLang
