import ExprCheck.Log
import ExprCheck.Tree.Basic
import ExprCheck.Typing.Operator

/-!
# The types of a tree

* `Expr.infer`: the tree with the type of each node, or the first fault.
* `Expr.typeCheck`: the same, with the type of the whole tree in the log.

Operands are checked from left to right and before the operator, a condition before the branches,
and the elements of a block in their order. A conditional without another branch has no value, and
neither has an empty block; two branches must have the same type, even where the types would merge.
-/

namespace ExprCheck

namespace Logged

variable {α : Type}

/-- A fault is reported at the given position. -/
def located (position : Position) (result : Except Fault α) : Logged α :=
  ofExcept (result.mapError fun fault => ⟨fault, position⟩)

end Logged

/-- Whether the first part of a conditional can be one. -/
def Ty.asCondition (condition : Ty) : Except Fault Unit :=
  if condition = .bool then .ok () else .error (.nonBooleanCondition condition.name)

/-- The type of a conditional with two branches. -/
def Ty.ofBranches (body otherwise : Ty) : Except Fault Ty :=
  if body = otherwise then .ok body else .error (.branchTypeMismatch body.name otherwise.name)

/-- The type of a block, which is that of its last element. -/
def TypedExpr.lastType (items : List TypedExpr) : Ty :=
  match items.getLast? with
  | none => .void
  | some last => last.note

namespace Expr

open Logged

mutual

/-- The tree with the type of each node. -/
def infer : Expr → Logged TypedExpr
  | .literal _ token => do
    let ty ← located token.start token.literalType
    return .literal ty token
  | .unary _ operator operand span => do
    let operand ← infer operand
    let ty ← located operator.start (operator.signedType operand.note)
    return .unary ty operator operand span
  | .binary _ left operator right span => do
    let left ← infer left
    let right ← infer right
    let ty ← located operator.start (operator.resultType left.note right.note)
    write (.operator left.note operator.value right.note ty)
    return .binary ty left operator right span
  | .ifThen _ condition body span => do
    let condition ← infer condition
    located condition.start condition.note.asCondition
    let body ← infer body
    return .ifThen .void condition body span
  | .ifElse _ condition body otherwise span => do
    let condition ← infer condition
    located condition.start condition.note.asCondition
    let body ← infer body
    let otherwise ← infer otherwise
    let ty ← located otherwise.start (body.note.ofBranches otherwise.note)
    return .ifElse ty condition body otherwise span
  | .block _ items span => do
    let items ← inferAll items
    return .block (TypedExpr.lastType items) items span

/-- The trees with the type of each node. -/
def inferAll : List Expr → Logged (List TypedExpr)
  | [] => return []
  | item :: items => do
    let item ← infer item
    let items ← inferAll items
    return item :: items

end

/-- The tree with the type of each node, where the type of the whole tree is logged. -/
def typeCheck (expr : Expr) : Logged TypedExpr := do
  let typed ← infer expr
  write (.checked typed.note)
  return typed

end Expr

end ExprCheck
