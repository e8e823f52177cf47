import ExprCheck.Check
import ExprCheck.CommandLine.Run
import ExprCheck.Main
import ExprCheck.Tree.Equality
import ExprCheck.Proofs.Tree.Nodes
import ExprCheck.Proofs.Typing.Derivation
import ExprCheck.Proofs.Parser.Step
import ExprCheck.Proofs.Parser.Reading
import ExprCheck.Proofs.Parser.Soundness
import ExprCheck.Proofs.Parser.Completeness
import ExprCheck.Proofs.Parser.Entry
import ExprCheck.Proofs.Grammar.Acceptance
import ExprCheck.Proofs.Precedence.Split
import ExprCheck.Proofs.Precedence.Chain
import ExprCheck.Proofs.Token.Longest
import ExprCheck.Proofs.Token.Scan
import ExprCheck.Proofs.Token.Lexeme
import ExprCheck.Proofs.Token.Tiling
import ExprCheck.Proofs.Token.Munch
import ExprCheck.Proofs.Token.Juxtaposition
import ExprCheck.Proofs.Token.Layout
import ExprCheck.Proofs.Tree.Source
import ExprCheck.Proofs.RoundTrip.Text
import ExprCheck.Proofs.RoundTrip.Tokens
import ExprCheck.Proofs.RoundTrip.Reading
import ExprCheck.Proofs.Parser.Agreement
import ExprCheck.Proofs.Parser.Height
import ExprCheck.Proofs.Parser.Places
import ExprCheck.Proofs.Typing.Culprit
import ExprCheck.Proofs.Parser.Extent
import ExprCheck.Proofs.Tree.Correspondence
import ExprCheck.Proofs.Parser.Tandem
import ExprCheck.Proofs.Parser.Lockstep
import ExprCheck.Proofs.Parser.Refusal
import ExprCheck.Proofs.Grammar.Prefix
import ExprCheck.Proofs.Text.Lines
import ExprCheck.Proofs.Text.Location
import ExprCheck.Proofs.Diagnostic.Caret
import ExprCheck.Proofs.Precedence.Nesting
import ExprCheck.Proofs.Precedence.Signs
import ExprCheck.Proofs.Precedence.Operands
import ExprCheck.Proofs.Parser.Census
import ExprCheck.Proofs.Typing.Checks
import ExprCheck.Proofs.Parser.Form
import ExprCheck.Proofs.Parser.Blame
import ExprCheck.Proofs.Parser.Seam
import ExprCheck.Proofs.Parser.Unknown
import ExprCheck.Proofs.Parser.Brackets
import ExprCheck.Proofs.Parser.Composition
import ExprCheck.Proofs.Parser.Depth
import ExprCheck.Proofs.Parser.Progress
import ExprCheck.Proofs.Parser.Consultation
import ExprCheck.Proofs.Parser.Registration
import ExprCheck.Proofs.Parser.Headroom
import ExprCheck.Proofs.Parser.InputEnd
import ExprCheck.Proofs.Parser.Concatenation
import ExprCheck.Proofs.Parser.SoleExpression
import ExprCheck.Proofs.Typing.Correspondence
import ExprCheck.Proofs.Typing.Cascade
import ExprCheck.Proofs.Typing.Widening
import ExprCheck.Proofs.Typing.Context
import ExprCheck.Proofs.Parser.Correspondence
import ExprCheck.Proofs.Parser.Layout
import ExprCheck.Proofs.Log.Checking
import ExprCheck.Proofs.Log.Reading
import ExprCheck.Proofs.Log.Lines
import ExprCheck.Proofs.Log.Record
import ExprCheck.Proofs.CommandLine.Files
import ExprCheck.Proofs.CommandLine.Contract
