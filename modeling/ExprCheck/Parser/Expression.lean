import ExprCheck.Parser.State

/-!
# Reading expressions

* `ParserM.operand`: what the first token of an expression starts, by its rule.
* `ParserM.application`: an operator that follows an operand, and its right operand.
* `ParserM.expression`: an expression whose operators bind tighter than a given power.

The rules for parts of expressions are given the step that reads the expressions inside them. Each
node of the tree is one level deeper than the node around it, and so is each operator in a chain, so
no chain of nested expressions, of operators or of branches is longer than `maxNestingDepth`. That
is the number of rounds that the recursions below are given.
-/

namespace ExprCheck

namespace ParserM

variable {σ : Type} [TokenSource σ]

/-- The number of levels that a tree may have, and one for the level that is refused. -/
def levels : Nat :=
  maxNestingDepth + 1

/-- Refuses to build a deeper tree. -/
def refuseDepth {α : Type} : ParserM σ α := fun parser =>
  .error parser.current.tooDeep parser

/-! ### Operands -/

/-- A leaf. -/
def literal : ParserM σ Expr := do
  let token ← current
  if token.kind.isLiteral then
    let token ← advance
    return .literal () token
  else throw token.unexpected

/-- A sign and its operand, which takes in the operators that bind tighter than the sign does when
it stands between two operands. -/
def sign (nested : BindingPower → ParserM σ Expr) : ParserM σ Expr := do
  let rules ← rules
  let operator ← advance
  let operand ← nested (rules.powerOf operator.kind)
  return .unary () operator operand ⟨operator.span.start, operand.span.stop⟩

/-- An expression in brackets. The brackets leave no trace in the tree. -/
def group (nested : BindingPower → ParserM σ Expr) : ParserM σ Expr := do
  let _ ← advance
  let inner ← nested .lowest
  let _ ← expect .closeParen
  return inner

/-- Expressions one after the other, up to a token of kind `closing` or the end of the input. -/
def itemsUntil (nested : BindingPower → ParserM σ Expr) (closing : TokenKind) :
    Nat → ParserM σ (List Expr)
  | 0 => return []
  | rounds + 1 => do
    let token ← current
    if token.kind = closing ∨ token.kind = .eof then return []
    else
      let item ← nested .lowest
      let later ← itemsUntil nested closing rounds
      return item :: later

/-- Expressions in curly brackets. -/
def block (nested : BindingPower → ParserM σ Expr) : ParserM σ Expr := do
  let opening ← expect .openCurly
  let items ← withRemaining (itemsUntil nested .closeCurly)
  let closing ← expect .closeCurly
  return .block () items ⟨opening.span.start, closing.span.stop⟩

/-- A conditional, from its first word or from a word that continues it. A continuation becomes a
conditional in the other branch, one level deeper. -/
def branchWithin (nested : BindingPower → ParserM σ Expr) : Nat → ParserM σ Expr
  | 0 => refuseDepth
  | rounds + 1 => do
    let word ← advance
    let condition ← nested .lowest
    let body ← block nested
    let token ← current
    match token.kind with
    | .elsifWord =>
      descend
      let otherwise ← branchWithin nested rounds
      return .ifElse () condition body otherwise ⟨word.span.start, otherwise.span.stop⟩
    | .elseWord =>
      let _ ← advance
      let otherwise ← block nested
      return .ifElse () condition body otherwise ⟨word.span.start, otherwise.span.stop⟩
    | _ => return .ifThen () condition body ⟨word.span.start, body.span.stop⟩

/-- A conditional with all its branches. -/
def branch (nested : BindingPower → ParserM σ Expr) : ParserM σ Expr :=
  branchWithin nested levels

/-- A branch without a conditional, which is refused. -/
def misplaced : ParserM σ Expr := do
  let token ← current
  throw token.misplaced

/-- What the current token starts, read by the given rule. -/
def operand (nested : BindingPower → ParserM σ Expr) : PrefixRule → ParserM σ Expr
  | .literal => literal
  | .sign => sign nested
  | .group => group nested
  | .block => block nested
  | .branch => branch nested
  | .misplaced => misplaced

/-! ### Operators -/

/-- The current token as an operator between `left` and the operand that follows. -/
def application (nested : BindingPower → ParserM σ Expr) (rule : InfixRule) (left : Expr) :
    ParserM σ Expr := do
  let operator ← advance
  let right ← nested rule.operandPower
  return .binary () left operator right ⟨left.span.start, right.span.stop⟩

/-- Takes the operators that bind tighter than `power`, one after the other, to `left`. Each is one
level deeper than the one before. -/
def extend (nested : BindingPower → ParserM σ Expr) (power : BindingPower) :
    Nat → Expr → ParserM σ Expr
  | 0, _ => refuseDepth
  | rounds + 1, left => do
    let rules ← rules
    let token ← current
    match rules.infixRule? token.kind with
    | none => return left
    | some rule =>
      if power < rule.power then
        descend
        let left ← application nested rule left
        extend nested power rounds left
      else return left

/-! ### Expressions -/

/-- An operand and the operators after it that bind tighter than `power`. -/
def chain (nested : BindingPower → ParserM σ Expr) (power : BindingPower) : ParserM σ Expr := do
  let rules ← rules
  let token ← current
  match rules.prefixRule? token.kind with
  | none => throw token.unexpected
  | some rule =>
    descend
    write (.operand token.kind token.start.offset)
    let left ← operand nested rule
    extend nested power levels left

/-- An expression of so many levels whose operators bind tighter than `power`. -/
def expressionWithin : Nat → BindingPower → ParserM σ Expr
  | 0, _ => refuseDepth
  | rounds + 1, power => restoringDepth (chain (expressionWithin rounds) power)

/-- An expression whose operators bind tighter than `power`. -/
def expression (power : BindingPower) : ParserM σ Expr :=
  expressionWithin levels power

end ParserM

end ExprCheck
