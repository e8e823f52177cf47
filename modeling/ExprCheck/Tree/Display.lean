import ExprCheck.Tree.Basic

/-!
# Trees as text

* `Tree.Dress`: what encloses the text of a node.
* `Tree.displayWith`: a tree as one line of text.
* `Expr.display`: operators and their operands in round brackets, as in `(1 + (2 * 3))`.
* `TypedExpr.display`: every node but a literal in round brackets after its type, as in
  `Int(1 + Int(2 * 3))`.
-/

namespace ExprCheck

namespace Tree

variable {α : Type}

/-- What encloses the text of a node: of one with an operator, and of a conditional or a block. -/
structure Dress (α : Type) where
  operation : α → String → String
  control : α → String → String

mutual

/-- A tree as one line of text. -/
def displayWith (dress : Dress α) : Tree α → String
  | literal _ token => token.display
  | unary note operator operand _ =>
    dress.operation note (operator.value ++ displayWith dress operand)
  | binary note left operator right _ =>
    dress.operation note
      (displayWith dress left ++ " " ++ operator.value ++ " " ++ displayWith dress right)
  | ifThen note condition body _ =>
    dress.control note ("if " ++ displayWith dress condition ++ " " ++ displayWith dress body)
  | ifElse note condition body otherwise _ =>
    dress.control note
      ("if " ++ displayWith dress condition ++ " " ++ displayWith dress body ++ " else "
        ++ displayWith dress otherwise)
  | block note items _ =>
    dress.control note
      (match items with
        | [] => "\x7b\x7d"
        | _ :: _ => "\x7b" ++ displayAll dress items ++ " \x7d")

/-- Trees one after the other, with a space before each. -/
def displayAll (dress : Dress α) : List (Tree α) → String
  | [] => ""
  | item :: items => " " ++ displayWith dress item ++ displayAll dress items

end

end Tree

namespace Expr

/-- Round brackets around operations only. -/
def dress : Tree.Dress Unit where
  operation _ text := "(" ++ text ++ ")"
  control _ text := text

/-- The text of a tree as it was read. -/
def display (expr : Expr) : String :=
  expr.displayWith dress

end Expr

namespace TypedExpr

/-- The type before round brackets, around every node. -/
def dress : Tree.Dress Ty where
  operation ty text := ty.name ++ "(" ++ text ++ ")"
  control ty text := ty.name ++ "(" ++ text ++ ")"

/-- The text of a tree with its types. -/
def display (expr : TypedExpr) : String :=
  expr.displayWith dress

end TypedExpr

end ExprCheck
