import MonkeyLang.Machine
import MonkeyLang.Value.Operator

/-!
Evaluation. Errors and returned values are passed up as ordinary results: an error ends whatever
is being evaluated, and a returned value ends the statements around it until a call or the end of
the program takes it out. The branches of a condition run in the frame of the condition, a call
runs in a frame of its own.

Each function takes the number of nested steps that are still allowed and is halted when there are
none left, and so are printing and tracing when the text of a value or a tree takes more of them.
Verbosity 1 traces the statements of the program, 2 adds bindings and calls, 3 adds conditions and
calls of builtin functions.
-/

set_option autoImplicit false

namespace MonkeyLang

namespace Builtin

def invalidArgument (builtin : Builtin) (argument : Value) : Value :=
  .error ⟨.invalidArgument,
    "type: " ++ argument.typeName ++ ", function name: " ++ builtin.name⟩

def invalidCount (builtin : Builtin) (expected got : Nat) : Value :=
  .error ⟨.invalidArgumentCount,
    "function name: " ++ builtin.name ++ ", expected: " ++ toString expected ++ ", got: " ++
      toString got⟩

def printEach (room : Room) : List Value → Run Unit
  | [] => pure ()
  | value :: values => do
    Run.print room value
    printEach room values

/-- The result of a builtin function on as many arguments as it takes. -/
def result (room : Room) (builtin : Builtin) (arguments : List Value) : Run Value :=
  match builtin, arguments with
  | len, [.string s] => pure (.integer s.length)
  | len, [.array elements] => pure (.integer elements.length)
  | first, [.array elements] => pure (elements.head?.getD .null)
  | last, [.array elements] => pure (elements.getLast?.getD .null)
  | rest, [.array elements] => pure (.array elements.tail)
  | push, [.array elements, item] => pure (.array (elements ++ [item]))
  | puts, values => do
    printEach room values
    return .null
  | builtin, values => pure (builtin.invalidArgument (values.headD .null))

def call (room : Room) (builtin : Builtin) (arguments : List Value) : Run Value :=
  match builtin.arity? with
  | some expected =>
    if arguments.length = expected then builtin.result room arguments
    else pure (builtin.invalidCount expected arguments.length)
  | none => builtin.result room arguments

end Builtin

namespace Evaluation

/-- The values of the items in order, up to the first error. -/
@[specialize] def values {α : Type} (evaluate : α → Run Value) :
    List α → Run (Except Failure (List Value))
  | [] => pure (.ok [])
  | item :: rest => do
    match ← evaluate item with
    | .error failure => return .error failure
    | value =>
      match ← values evaluate rest with
      | .error failure => return .error failure
      | .ok found => return .ok (value :: found)

/-- Binds parameters to the values of arguments, one after the other, up to the first error.
Surplus arguments are not evaluated, and surplus parameters stay unbound. -/
@[specialize] def bindArguments {α : Type} (evaluate : α → Run Value) (frame : FrameId) :
    List Identifier → List α → Run (Option Failure)
  | parameter :: parameters, argument :: arguments => do
    match ← evaluate argument with
    | .error failure => return some failure
    | value =>
      Run.setVariable frame parameter.value value
      bindArguments evaluate frame parameters arguments
  | _, _ => pure none

/-- The hash of the pairs, each key checked before its value is evaluated. -/
@[specialize] def hashPairs {α : Type} (evaluate : α → Run Value) :
    List (α × α) → List (Key × Value) → Run Value
  | [], done => pure (.hash done)
  | (key, value) :: rest, done =>
    Run.andThen (evaluate key) fun k =>
      match k.key? with
      | none => pure (Value.invalidHashKey k)
      | some found =>
        Run.andThen (evaluate value) fun v =>
          hashPairs evaluate rest (Entries.put found v done)

/-- Runs statements until one gives an error or a returned value; the result is that of the last
one run. -/
@[specialize] def runEach {α : Type} (execute : α → Run (Option Value)) :
    Option Value → List α → Run (Option Value)
  | result, [] => pure result
  | _, statement :: rest => do
    match ← execute statement with
    | some (.returned value) => return some (.returned value)
    | some (.error failure) => return some (.error failure)
    | result => runEach execute result rest

def orNull (result : Option Value) : Value :=
  result.getD .null

/-- The value of a call whose body gave this result. -/
def callResult : Option Value → Value
  | some (.returned value) => value
  | result => orNull result

def identifier (settings : Settings) (name : String) (frame : FrameId) : Run Value := do
  match ← Run.getVariable frame name with
  | some value => return value
  | none =>
    match Entries.get? settings.builtins name with
    | some builtin => return .builtin builtin
    | none => return .error ⟨.undefinedIdentifier, name⟩

/-! The lines of the trace take nested steps too, and find the room for them where they stand. -/

def noteCall (settings : Settings) (room : Room) (callee : Expr) (count : Nat) : Run Unit :=
  Run.note settings 2 (fun _ => Halt.within Steps.inserted callee.obstacle? room) fun _ =>
    "call " ++ callee.render ++ " with " ++ toString count ++ " argument(s)"

def noteBuiltin (settings : Settings) (room : Room) (builtin : Builtin) (arguments : List Value) :
    Run Unit :=
  Run.note settings 3
    (fun _ => Halt.beyond (Steps.joined + Value.inspectDepthIn arguments) room) fun _ =>
    "builtin " ++ builtin.name ++ "(" ++ ", ".intercalate (arguments.map Value.inspect) ++ ")"

def noteBinding (settings : Settings) (room : Room) (name : String) (value : Value) : Run Unit :=
  Run.note settings 2 (fun _ => Halt.beyond value.inspectDepth room) fun _ =>
    "let " ++ name ++ " = " ++ value.inspect

def noteCondition (settings : Settings) (room : Room) (condition : Value) : Run Unit :=
  Run.note settings 3 (fun _ => Halt.beyond condition.inspectDepth room) fun _ =>
    "if condition " ++ condition.inspect ++ " -> " ++ inspectBool condition.truthy

mutual

def evaluate (settings : Settings) : Nat → Expr → FrameId → Run Value
  | 0, _, _ => Run.halt .depth
  | depth + 1, expression, frame =>
    match expression with
    | .integer _ value => pure (.integer value)
    | .string _ value => pure (.string value)
    | .boolean _ value => pure (.boolean value)
    | .unary _ operator right =>
      Run.andThen (evaluate settings depth right frame) fun value =>
        pure (Value.unary operator value)
    | .binary _ left operator right =>
      Run.andThen (evaluate settings depth left frame) fun a =>
        Run.andThen (evaluate settings depth right frame) fun b =>
          pure (Value.binary operator a b)
    | .conditional _ condition consequence alternative =>
      conditional settings depth condition consequence alternative frame
    | .identifier name => identifier settings name.value frame
    | .function _ parameters body => Run.makeFunction parameters body frame
    | .call _ callee arguments => call settings depth callee arguments frame
    | .array _ elements => do
      match ← evaluateEach settings depth elements frame with
      | .error failure => return .error failure
      | .ok values => return .array values
    | .index _ left place =>
      Run.andThen (evaluate settings depth left frame) fun value =>
        Run.andThen (evaluate settings depth place frame) fun spot =>
          pure (Value.index value spot)
    | .hash _ pairs => hashLiteral settings depth pairs frame

def evaluateEach (settings : Settings) :
    Nat → List Expr → FrameId → Run (Except Failure (List Value))
  | 0, _, _ => Run.halt .depth
  | depth + 1, expressions, frame =>
    values (fun expression => evaluate settings depth expression frame) expressions

def hashLiteral (settings : Settings) : Nat → List (Expr × Expr) → FrameId → Run Value
  | 0, _, _ => Run.halt .depth
  | depth + 1, pairs, frame =>
    hashPairs (fun expression => evaluate settings depth expression frame) pairs []

def conditional (settings : Settings) :
    Nat → Expr → Block → Option Block → FrameId → Run Value
  | 0, _, _, _, _ => Run.halt .depth
  | depth + 1, condition, consequence, alternative, frame =>
    Run.andThen (evaluate settings depth condition frame) fun value => do
      noteCondition settings (some depth) value
      if value.truthy then
        return orNull (← execute settings depth (.block consequence) frame)
      else
        match alternative with
        | some block => return orNull (← execute settings depth (.block block) frame)
        | none => return .null

def call (settings : Settings) : Nat → Expr → List Expr → FrameId → Run Value
  | 0, _, _, _ => Run.halt .depth
  | depth + 1, callee, arguments, frame =>
    Run.andThen (evaluate settings depth callee frame) fun value =>
      match value with
      | .function closure => do
        let inner ← Run.openFrame closure.frame
        match ← bindArguments (fun argument => evaluate settings depth argument frame) inner
            closure.parameters arguments with
        | some failure => return .error failure
        | none =>
          noteCall settings (some depth) callee arguments.length
          return callResult (← execute settings depth (.block closure.body) inner)
      | .builtin builtin => do
        match ← evaluateEach settings depth arguments frame with
        | .error failure => return .error failure
        | .ok values =>
          noteBuiltin settings (some depth) builtin values
          builtin.call (some depth) values
      | value => pure (.error ⟨.callNonFunction, value.typeName⟩)

/-- A statement may give no value. -/
def execute (settings : Settings) : Nat → Stmt → FrameId → Run (Option Value)
  | 0, _, _ => Run.halt .depth
  | depth + 1, statement, frame =>
    match statement with
    | .expression _ expression => do return some (← evaluate settings depth expression frame)
    | .block block => executeEach settings depth block.statements frame
    | .returning _ expression => do
      match ← evaluate settings depth expression frame with
      | .error failure => return some (.error failure)
      | value => return some (.returned value)
    | .binding _ name expression => do
      match ← evaluate settings depth expression frame with
      | .error failure => return some (.error failure)
      | value =>
        Run.setVariable frame name.value value
        noteBinding settings (some depth) name.value value
        return none

def executeEach (settings : Settings) : Nat → List Stmt → FrameId → Run (Option Value)
  | 0, _, _ => Run.halt .depth
  | depth + 1, statements, frame =>
    runEach (fun statement => execute settings depth statement frame) none statements

end

/-- What stands in the way of the line that traces a statement: the statement is written before its
result. -/
def statementObstacle? (statement : Stmt) (result : Option Value) (room : Room) : Option Halt :=
  Halt.within Steps.inserted statement.obstacle? room <|>
    Halt.beyond ((result.map Value.inspectDepth).getD 0) room

def noteStatement (settings : Settings) (room : Room) (statement : Stmt)
    (result : Option Value) : Run Unit :=
  Run.note settings 1 (fun _ => statementObstacle? statement result room) fun _ =>
    statement.render ++ " => " ++ (result.map Value.inspect).getD "<no value>"

/-- Runs the statements of a program; a returned value ends it and is its result. -/
def programResult (settings : Settings) (frame : FrameId) :
    Option Value → List Stmt → Run (Option Value)
  | result, [] => pure result
  | _, statement :: rest => do
    let result ← execute settings settings.depthLimit statement frame
    noteStatement settings (some settings.depthLimit) statement result
    match result with
    | some (.returned value) => return some value
    | some (.error failure) => return some (.error failure)
    | result => programResult settings frame result rest

end Evaluation

/-- Runs a program in a frame. Too many nested steps make its result an error, whether evaluation
took them or a text; only a literal without a text can halt it. -/
def Program.run (settings : Settings) (program : Program) (frame : FrameId) : Run (Option Value) :=
  fun machine =>
    match Evaluation.programResult settings frame none program.statements machine with
    | .halted .depth machine =>
      Run.bind (Run.note settings 1 (fun _ => none) fun _ => "recursion limit reached")
        (fun _ => Run.pure (some (.error ⟨.depthExceeded, ""⟩))) machine
    | outcome => outcome

end MonkeyLang
