import ExprCheck.Parser.Expression
import ExprCheck.Token.Scanner

/-!
# Reading programs

* `parse`: a whole program, which is a row of expressions. Its tree is a block over the whole
  source.
* `parseExpression`: a source that holds one expression and nothing else.

Both read any source of tokens.
-/

namespace ExprCheck

namespace ParserM

variable {σ : Type} [TokenSource σ]

/-- All expressions up to the end of the input. -/
def program : ParserM σ Expr := do
  let first ← current
  let items ← withRemaining (itemsUntil expression .eof)
  write (.program items.length)
  let last ← current
  return .block () items ⟨⟨0, first.start.file⟩, last.start⟩

/-- One expression up to the end of the input. -/
def soleExpression : ParserM σ Expr := do
  let expr ← expression .lowest
  let token ← current
  if token.kind = .eof then return expr else throw token.trailing

end ParserM

variable {σ : Type} [TokenSource σ]

/-- Reads a program by the standard rules. -/
def parse (source : σ) : Logged Expr :=
  (Parser.ofSource Rules.standard source).outcome ParserM.program

/-- Reads a single expression by the standard rules. -/
def parseExpression (source : σ) : Logged Expr :=
  (Parser.ofSource Rules.standard source).outcome ParserM.soleExpression

end ExprCheck
