import MonkeyLang.Main
import MonkeyLang.Program.Equality
import MonkeyLang.Value.Equality
import MonkeyLang.Proofs.Evaluation.Frames
import MonkeyLang.Proofs.Evaluation.Returns
import MonkeyLang.Proofs.Parser.Soundness
import MonkeyLang.Proofs.Program.RoundTrip
import MonkeyLang.Proofs.Document.Reading
import MonkeyLang.Proofs.Evaluation.Direct
import MonkeyLang.Proofs.Evaluation.Exits
import MonkeyLang.Proofs.Parser.Joining
import MonkeyLang.Proofs.Session.Joined
import MonkeyLang.Proofs.Json.RoundTrip
import MonkeyLang.Proofs.Document.Text
import MonkeyLang.Proofs.Command.Files
import MonkeyLang.Proofs.Command.Arguments
import MonkeyLang.Proofs.Command.Emitted
import MonkeyLang.Proofs.Evaluation.Lockstep
import MonkeyLang.Proofs.Evaluation.Reachable
import MonkeyLang.Proofs.Evaluation.ErrorFree
import MonkeyLang.Proofs.Evaluation.DepthLimit
import MonkeyLang.Proofs.Evaluation.Tracing
import MonkeyLang.Proofs.Evaluation.Absorption
import MonkeyLang.Proofs.Evaluation.Unmentioned
import MonkeyLang.Proofs.Evaluation.Integers
import MonkeyLang.Proofs.Token.Layout
import MonkeyLang.Proofs.Program.Parsed
import MonkeyLang.Proofs.Parser.DepthLimit
import MonkeyLang.Proofs.Parser.OperatorChains
import MonkeyLang.Proofs.Document.Schema
import MonkeyLang.Proofs.Parser.Reports
import MonkeyLang.Proofs.Evaluation.Arithmetic
import MonkeyLang.Proofs.Evaluation.Calls
import MonkeyLang.Proofs.Evaluation.HashLiterals
import MonkeyLang.Proofs.Scopes
import MonkeyLang.Proofs.Evaluation.Formation
import MonkeyLang.Proofs.Parser.Termination
import MonkeyLang.Proofs.Token.Cursor
import MonkeyLang.Proofs.Value.Equality
