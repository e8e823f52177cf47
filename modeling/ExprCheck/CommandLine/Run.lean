import ExprCheck.Check
import ExprCheck.CommandLine.Files
import ExprCheck.CommandLine.Options
import ExprCheck.Diagnostic.Excerpt
import ExprCheck.Tree.Display

/-!
# The command

* `Output`: what the command writes, and its exit code.
* `tokenTable`: the tokens of a program, a line for each.
* `Options.runOn`: the command on the text of a program.
* `Options.run`: the command on what it has read, which may be no text.
* `Options.runIn`: the command on what it is to read.

On success the tree of the program is written to the standard output, after the tokens if they are
asked for. A fault in the program goes to the standard error, with a request to report it if the
checker is at fault. All tokens are read before the first of them is written.
-/

namespace ExprCheck

/-- What the command leaves behind. -/
structure Output where
  exitCode : UInt32
  stdout : String
  stderr : String
deriving DecidableEq

namespace Output

/-- The output of a command that succeeds. -/
def success (stdout : String) : Output :=
  ⟨0, stdout, ""⟩

/-- The output of a command that fails. -/
def failure (stdout stderr : String) : Output :=
  ⟨1, stdout, stderr⟩

end Output

/-- A token in a table: its offset, its kind and itself. -/
def tokenLine (token : Token) : String :=
  Text.alignRight 5 (toString token.start.offset.toNat) ++ " "
    ++ Text.alignLeft 14 token.kind.display ++ " " ++ token.display ++ "\n"

/-- A line for each of the tokens before the end of the input. -/
def tokenTable (tokens : List Token) : String :=
  String.join ((tokens.takeWhile fun token => token.kind ≠ .eof).map tokenLine)

/-- How a fault in a program is shown. A fault of the checker is to be reported. -/
def Diagnostic.report (diagnostic : Diagnostic) (source file : String) : String :=
  diagnostic.render source file
    ++ if diagnostic.isInternal then "This is a bug in exprlang, please report it.\n" else ""

namespace Options

/-- The name by which diagnostics call what is read. -/
def fileName (options : Options) : String :=
  options.path?.getD "<stdin>"

/-- The name of what is read when it cannot be read. -/
def sourceName (options : Options) : String :=
  options.path?.getD "stdin"

/-- The tokens of a program, as far as they are asked for. -/
def tokenText (options : Options) (source : String) : Except Diagnostic String :=
  if options.showTokens then (tokenize source options.fileName).map tokenTable else .ok ""

/-- The tree of a program, with types or without. -/
def treeText (options : Options) (source : String) : Except Diagnostic String := do
  let expr ← (parse (Scanner.ofSource source options.fileName)).result
  if options.parseOnly then return expr.display
  else
    let typed ← expr.typeCheck.result
    return typed.display

/-- The command on the text of a program. -/
def runOn (options : Options) (source : String) : Output :=
  match options.tokenText source with
  | .error diagnostic => .failure "" (diagnostic.report source options.fileName)
  | .ok tokens =>
    match options.treeText source with
    | .error diagnostic => .failure tokens (diagnostic.report source options.fileName)
    | .ok tree => .success (tokens ++ tree ++ "\n")

/-- The command on what was read from the file or from the standard input. -/
def run (options : Options) (input : Except ReadFailure ByteArray) : Output :=
  match input >>= decodeText with
  | .error cause =>
    .failure "" ("Failed to read " ++ options.sourceName ++ ": " ++ cause.reason ++ "\n")
  | .ok source => options.runOn source

/-- What is to be read: the file that is asked for, or else the standard input. -/
def input {m : Type → Type} (options : Options) (inputs : Inputs m) :
    m (Except ReadFailure ByteArray) :=
  match options.path? with
  | some path => inputs.file path
  | none => inputs.standard

/-- The command on what it is to read. -/
def runIn {m : Type → Type} [Monad m] (options : Options) (inputs : Inputs m) : m Output := do
  let input ← options.input inputs
  return options.run input

end Options

end ExprCheck
