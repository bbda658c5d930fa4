import MonkeyLang.Text.Digit
import MonkeyLang.Text.Quoted

/-!
The arguments of the command line. Long options may be shortened as long as they stay unambiguous
and take their value after `=` or as the next argument; short options may share one dash. Options
may follow the program, and `--` ends them. All arguments are classified first, then options act
from left to right, so a request for help wins over what comes after it.
-/

set_option autoImplicit false

namespace MonkeyLang.Command

inductive Flag where
  | help
  | verbose
  | debugFile
  | emitAst
  | ast
  deriving DecidableEq, Repr

namespace Flag

/-- The spellings of the options, in the order in which ambiguous matches are listed. -/
def spellings : List (String × Flag) :=
  [("-h", help), ("--help", help), ("-v", verbose), ("--debug-file", debugFile),
   ("--emit-ast", emitAst), ("--ast", ast)]

def ofSpelling? (text : String) : Option Flag :=
  spellings.lookup text

def takesValue : Flag → Bool
  | help | verbose => false
  | debugFile | emitAst | ast => true

/-- How messages call the option. -/
def label : Flag → String
  | help => "-h/--help"
  | verbose => "-v"
  | debugFile => "--debug-file"
  | emitAst => "--emit-ast"
  | ast => "--ast"

end Flag

/-- The value of an option that was given none is empty, and for the trace file there is no path. -/
structure Options where
  verbosity : Nat := 0
  debugFile : Option String := some "debug.txt"
  emitAst : Option String := none
  ast : Option String := none
  program : Option String := none
  deriving DecidableEq, Repr

inductive UsageError where
  | ambiguous (argument : String) (matching : List String)
  | expectedValue (flag : Flag)
  | ignoredValue (flag : Flag) (value : String)
  | notAllowedWith (flag other : Flag)
  | unrecognized (arguments : List String)
  deriving DecidableEq, Repr

def UsageError.message : UsageError → String
  | .ambiguous argument matching =>
    "ambiguous option: " ++ argument ++ " could match " ++ ", ".intercalate matching
  | .expectedValue flag => "argument " ++ flag.label ++ ": expected one argument"
  | .ignoredValue flag value =>
    "argument " ++ flag.label ++ ": ignored explicit argument " ++ Text.quoted value
  | .notAllowedWith flag other =>
    "argument " ++ flag.label ++ ": not allowed with argument " ++ other.label
  | .unrecognized arguments => "unrecognized arguments: " ++ " ".intercalate arguments

inductive Argument where
  | plain (text : String)
  /-- The first `--`; everything after it is plain. -/
  | dashes
  /-- An option, with a value if one is attached to it in the same argument. -/
  | option (flag : Flag) (short : Bool) (attached : Option (List Char))
  | unknownOption (text : String)

/-- The text of an argument that can no longer be taken. -/
def Argument.leftover : Argument → List String
  | .plain text | .unknownOption text => [text]
  | .dashes => ["--"]
  | .option _ _ _ => []

def splitAtEquals (text : List Char) : List Char × Option (List Char) :=
  match text.dropWhile (· ≠ '=') with
  | _ :: value => (text.takeWhile (· ≠ '='), some value)
  | [] => (text, none)

/-- The part of a text before a line feed at its end. -/
def beforeFinalNewline (text : List Char) : List Char :=
  if text.getLast? = some '\n' then text.dropLast else text

def isDecimal (c : Char) : Bool :=
  (Text.decimalValue? c).isSome

/-- Whether the text after a dash reads as a number: such an argument is no option. -/
def isUnsignedNumber (text : List Char) : Bool :=
  let text := beforeFinalNewline text
  let whole := text.takeWhile isDecimal
  match text.dropWhile isDecimal with
  | [] => !whole.isEmpty
  | '.' :: fraction => !fraction.isEmpty && fraction.all isDecimal
  | _ => false

def withoutFlag (text : String) (afterDash : List Char) : Argument :=
  if isUnsignedNumber afterDash ∨ ' ' ∈ afterDash then .plain text else .unknownOption text

/-- An argument that starts with two dashes. No spelling starts another, so a full one is never
ambiguous. -/
def classifyLong (text : String) : Except UsageError Argument :=
  let (name, attached) := splitAtEquals text.toList
  match Flag.spellings.filter fun spelling => name.isPrefixOf spelling.1.toList with
  | [] => .ok (withoutFlag text (text.toList.drop 1))
  | [(_, flag)] => .ok (.option flag false attached)
  | many => .error (.ambiguous text (many.map (·.1)))

/-- An argument that starts with one dash, a letter and more. An equals sign directly after the
letter of an option is dropped. -/
def classifyShort (text : String) (letter : Char) (rest : List Char) : Argument :=
  match Flag.ofSpelling? (.ofList ['-', letter]), rest with
  | some flag, '=' :: value => .option flag true (some value)
  | some flag, _ => .option flag true (some rest)
  | none, _ => withoutFlag text (letter :: rest)

def classify (text : String) : Except UsageError Argument :=
  match text.toList with
  | ['-'] => .ok (.plain text)
  | ['-', letter] =>
    match Flag.ofSpelling? text with
    | some flag => .ok (.option flag true none)
    | none => .ok (withoutFlag text [letter])
  | '-' :: '-' :: _ => classifyLong text
  | '-' :: letter :: rest => .ok (classifyShort text letter rest)
  | _ => .ok (.plain text)

def classifyAll : List String → Except UsageError (List Argument)
  | [] => .ok []
  | "--" :: rest => .ok (.dashes :: rest.map .plain)
  | text :: rest => return (← classify text) :: (← classifyAll rest)

/-- What has been taken from the arguments so far. -/
structure Progress where
  options : Options := {}
  programTaken : Bool := false
  extras : List String := []

inductive Stop where
  | help
  | refused (error : UsageError)

/-- Acts on an option. The two options that name a document or its source exclude each other, also
where their values are empty. -/
def Progress.act (progress : Progress) (flag : Flag) (value : Option String) :
    Except Stop Progress :=
  let options := progress.options
  match flag with
  | .help => .error .help
  | .verbose =>
    .ok { progress with options := { options with verbosity := options.verbosity + 1 } }
  | .debugFile => .ok { progress with options := { options with debugFile := value } }
  | .emitAst =>
    if options.ast.isSome then .error (.refused (.notAllowedWith .emitAst .ast))
    else .ok { progress with options := { options with emitAst := value.getD "" } }
  | .ast =>
    if options.emitAst.isSome then .error (.refused (.notAllowedWith .ast .emitAst))
    else .ok { progress with options := { options with ast := value.getD "" } }

def Progress.actEach (progress : Progress) : List Flag → Except Stop Progress
  | [] => .ok progress
  | flag :: rest => do (← progress.act flag none).actEach rest

/-- The options in the letters that follow a short option without a value: each letter must be one
more such option. -/
def shortOptions (flag : Flag) : List Char → Except Stop (List Flag)
  | [] => .error (.refused (.ignoredValue flag ""))
  | letter :: rest =>
    match Flag.ofSpelling? (.ofList ['-', letter]), rest with
    | none, _ => .error (.refused (.ignoredValue flag (.ofList (letter :: rest))))
    | some next, [] => .ok [flag, next]
    | some next, rest => do return flag :: (← shortOptions next rest)

/-- A value attached to an option; two dashes alone count as none. -/
def attachedValue (value : List Char) : Option String :=
  if value = ['-', '-'] then none else some (.ofList value)

/-- The positional argument takes the first of the plain ones; a `--` beside it goes with it. -/
def Progress.finish (progress : Progress) (arguments : List Argument) : Progress :=
  let leftover (rest : List Argument) : List String := rest.flatMap Argument.leftover
  let take (text : String) (rest : List Argument) : Progress :=
    { progress with
      options := { progress.options with program := some text }
      programTaken := true
      extras := progress.extras ++ leftover rest }
  if progress.programTaken then { progress with extras := progress.extras ++ leftover arguments }
  else
    match arguments with
    | .dashes :: .plain text :: rest => take text rest
    | .plain text :: .dashes :: rest => take text rest
    | .plain text :: rest => take text rest
    | [.dashes] => progress
    | rest => { progress with extras := progress.extras ++ leftover rest }

def hasOption (arguments : List Argument) : Bool :=
  arguments.any fun
    | .option _ _ _ | .unknownOption _ => true
    | _ => false

/-- Takes the arguments from left to right. -/
def takeAll : List Argument → Progress → Except Stop Progress
  | [], progress => .ok progress
  | .unknownOption text :: rest, progress =>
    takeAll rest { progress with extras := progress.extras ++ [text] }
  | .option flag short attached :: rest, progress =>
    if flag.takesValue then
      match attached with
      | some value => do takeAll rest (← progress.act flag (attachedValue value))
      | none =>
        match rest with
        | .plain text :: rest => do takeAll rest (← progress.act flag text)
        | _ => .error (.refused (.expectedValue flag))
    else
      match attached with
      | none => do takeAll rest (← progress.act flag none)
      | some value =>
        if short then do takeAll rest (← progress.actEach (← shortOptions flag value))
        else .error (.refused (.ignoredValue flag (.ofList value)))
  | argument :: rest, progress =>
    if hasOption rest then
      match argument with
      | .plain text =>
        if progress.programTaken then
          takeAll rest { progress with extras := progress.extras ++ [text] }
        else
          takeAll rest
            { progress with
              options := { progress.options with program := some text }
              programTaken := true }
      | _ => takeAll rest progress
    else .ok (progress.finish (argument :: rest))

inductive Request where
  | help
  | refused (error : UsageError)
  | run (options : Options)

def parseArguments (arguments : List String) : Request :=
  match classifyAll arguments with
  | .error error => .refused error
  | .ok classified =>
    match takeAll classified {} with
    | .error .help => .help
    | .error (.refused error) => .refused error
    | .ok progress =>
      if progress.extras.isEmpty then .run progress.options
      else .refused (.unrecognized progress.extras)

def usage : String :=
  "usage: monkey [-h] [-v] [--debug-file DEBUG_FILE]\n" ++
  "              [--emit-ast MONKEY_FILE | --ast AST_JSON_FILE]\n" ++
  "              [program]\n"

def helpText : String :=
  usage ++ "\nMonkey language interpreter\n\n" ++
  "positional arguments:\n" ++
  "  program               Monkey program file to execute, or 'repl'\n\n" ++
  "options:\n" ++
  "  -h, --help            show this help message and exit\n" ++
  "  -v                    increase debug verbosity (can be repeated)\n" ++
  "  --debug-file DEBUG_FILE\n" ++
  "                        file receiving trace output when -v is given\n" ++
  "  --emit-ast MONKEY_FILE\n" ++
  "                        emit AST JSON for the given .monkey file\n" ++
  "  --ast AST_JSON_FILE   execute AST from a JSON file\n"

end MonkeyLang.Command
