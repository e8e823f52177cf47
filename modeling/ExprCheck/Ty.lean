/-!
# Types

* `Ty`: the types of the language. There are no compound types.
* `Ty.merge?`: the type that can hold the values of two types. Every integer is a float, and apart
  from that a type merges with itself only.
* `Ty.isNumeric`: the types that take a sign.
-/

namespace ExprCheck

/-- The types of the language. -/
inductive Ty where
  | int
  | float
  | char
  | string
  | bool
  | void
deriving DecidableEq

namespace Ty

/-- The name of a type. -/
def name : Ty → String
  | int => "Int"
  | float => "Float"
  | char => "Char"
  | string => "String"
  | bool => "Bool"
  | void => "Void"

/-- Whether values of the type can be added and take a sign. -/
def isNumeric : Ty → Bool
  | int | float => true
  | _ => false

/-- The type that holds the values of both types, if there is one. -/
def merge? (left right : Ty) : Option Ty :=
  if left = right then some left
  else if left.isNumeric && right.isNumeric then some float
  else none

/-- Whether the two types merge. -/
def isCompatible (left right : Ty) : Bool :=
  (left.merge? right).isSome

theorem merge?_self (ty : Ty) : ty.merge? ty = some ty := by
  simp [merge?]

theorem merge?_comm (left right : Ty) : left.merge? right = right.merge? left := by
  cases left <;> cases right <;> rfl

end Ty

end ExprCheck
