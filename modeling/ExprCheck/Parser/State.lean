import ExprCheck.Log
import ExprCheck.Parser.Rule
import ExprCheck.Token.Source
import ExprCheck.Tree.Basic

/-!
# Parsers and their steps

* `Parser`: a source of tokens, the rules, and the depth of the tree that is being built.
* `ParserM`: a step of a parser, which gives a value or fails. Either way it leaves the parser where
  it got to: a failure gives back no tokens.
* `advance`, `expect`, `descend`, `restoringDepth`: the steps that all others are made of.

A step that fails reports the position of the current token, which it has not passed.
-/

namespace ExprCheck

/-- The depth to which a tree can be built. Checking and showing a tree recurse on its depth, so
this bounds them as well. -/
def maxNestingDepth : Nat := 256

/-- A source of tokens, the rules for reading it and the state of the reading. -/
structure Parser (σ : Type) where
  source : σ
  rules : Rules
  /-- The depth of the node that is being built. -/
  depth : Nat
  /-- What was logged, the latest first. -/
  log : List LogEntry

/-- A step of a parser. -/
abbrev ParserM (σ α : Type) : Type := EStateM Diagnostic (Parser σ) α

namespace Token

/-- The report of a token that cannot start an expression. -/
def unexpected (token : Token) : Diagnostic :=
  ⟨if token.kind = .unknown then .unrecognisedToken token.value
    else .unexpectedToken token.value, token.start⟩

/-- The report of a token in the place of one of kind `expected`. -/
def insteadOf (expected : TokenKind) (token : Token) : Diagnostic :=
  ⟨if token.kind = .unknown then .unrecognisedToken token.value
    else .expectedToken expected.display token.value, token.start⟩

/-- The report of a branch without a conditional. -/
def misplaced (token : Token) : Diagnostic :=
  ⟨.misplacedBranch token.value, token.start⟩

/-- The report of a token whose node would lie too deep. -/
def tooDeep (token : Token) : Diagnostic :=
  ⟨.nestingTooDeep maxNestingDepth, token.start⟩

/-- The report of a token after the end of what was to be read. -/
def trailing (token : Token) : Diagnostic :=
  ⟨.unexpectedTokenDetailed token.value "expected end of input", token.start⟩

end Token

namespace Parser

variable {σ α : Type}

/-- A parser at the beginning of a source, with the given rules. -/
def ofSource (rules : Rules) (source : σ) : Parser σ :=
  ⟨source, rules, 0, []⟩

/-- Gives the standard rules to the kinds that they name. -/
def addStandardRules (parser : Parser σ) : Parser σ :=
  { parser with rules := Rules.standard.withFallback parser.rules }

/-- The outcome of a step and the whole log of the parser. -/
def outcome (parser : Parser σ) (step : ParserM σ α) : Logged α :=
  match step parser with
  | .ok value after => ⟨after.log.reverse, .ok value⟩
  | .error diagnostic after => ⟨after.log.reverse, .error diagnostic⟩

variable [TokenSource σ]

/-- The current token. -/
def current (parser : Parser σ) : Token :=
  TokenSource.current parser.source

/-- Whether the current token is not the end of the input. -/
def hasTokens (parser : Parser σ) : Bool :=
  parser.current.kind ≠ .eof

end Parser

namespace ParserM

variable {σ α : Type} [TokenSource σ]

/-- The current token, which is not passed. -/
def current : ParserM σ Token := fun parser =>
  .ok parser.current parser

/-- The rules. -/
def rules : ParserM σ Rules := fun parser =>
  .ok parser.rules parser

/-- Passes the current token and gives it. -/
def advance : ParserM σ Token := fun parser =>
  .ok parser.current { parser with source := TokenSource.advance parser.source }

/-- Passes the current token if it is of the expected kind. -/
def expect (expected : TokenKind) : ParserM σ Token := fun parser =>
  if parser.current.kind = expected then advance parser
  else .error (parser.current.insteadOf expected) parser

/-- Goes one level deeper into the tree. -/
def descend : ParserM σ Unit := fun parser =>
  if maxNestingDepth ≤ parser.depth then .error parser.current.tooDeep parser
  else .ok () { parser with depth := parser.depth + 1 }

/-- Writes to the log. -/
def write (entry : LogEntry) : ParserM σ Unit := fun parser =>
  .ok () { parser with log := entry :: parser.log }

/-- A step after which the depth is what it was before, whether the step fails or not. -/
def restoringDepth (step : ParserM σ α) : ParserM σ α := fun parser =>
  match step parser with
  | .ok value after => .ok value { after with depth := parser.depth }
  | .error diagnostic after => .error diagnostic { after with depth := parser.depth }

/-- A step that may take as many rounds as there are tokens left. -/
def withRemaining (step : Nat → ParserM σ α) : ParserM σ α := fun parser =>
  step (TokenSource.remaining parser.source) parser

end ParserM

end ExprCheck
