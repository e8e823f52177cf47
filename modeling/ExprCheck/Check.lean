import ExprCheck.Parser.Program
import ExprCheck.Typing.Infer

/-!
# From tokens to types

* `check`: the typed tree of a program, with all that reading and checking it logs.
* `checkExpression`: the same for a source that holds a single expression.
-/

namespace ExprCheck

variable {σ : Type} [TokenSource σ]

/-- Reads a program and finds its types. -/
def check (source : σ) : Logged TypedExpr := do
  let expr ← parse source
  Expr.typeCheck expr

/-- Reads a single expression and finds its types. -/
def checkExpression (source : σ) : Logged TypedExpr := do
  let expr ← parseExpression source
  Expr.typeCheck expr

end ExprCheck
