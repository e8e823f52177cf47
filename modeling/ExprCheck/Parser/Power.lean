/-!
# Binding powers

* `BindingPower`: how tightly an operator binds its operands, the weakest first.
* `BindingPower.rank`: their order as numbers.
* `BindingPower.weaker`: the power just below.

An operand read at some power takes in the operators that bind tighter than it. Reading the right
operand at the power of the operator makes a chain nest to the left; reading it at the next weaker
power makes the chain nest to the right.
-/

namespace ExprCheck

/-- How tightly an operator binds, the weakest first. -/
inductive BindingPower where
  | lowest
  | assignment
  | logicalOr
  | logicalAnd
  | equality
  | relational
  | additive
  | multiplicative
  | exponential
deriving DecidableEq

namespace BindingPower

/-- The place of a power in the order. -/
def rank : BindingPower → Nat
  | lowest => 0
  | assignment => 1
  | logicalOr => 2
  | logicalAnd => 3
  | equality => 4
  | relational => 5
  | additive => 6
  | multiplicative => 7
  | exponential => 8

instance : LT BindingPower where
  lt a b := a.rank < b.rank

instance : LE BindingPower where
  le a b := a.rank ≤ b.rank

instance (a b : BindingPower) : Decidable (a < b) :=
  inferInstanceAs (Decidable (a.rank < b.rank))

instance (a b : BindingPower) : Decidable (a ≤ b) :=
  inferInstanceAs (Decidable (a.rank ≤ b.rank))

/-- The next weaker power. The weakest has none below it. -/
def weaker : BindingPower → BindingPower
  | lowest | assignment => lowest
  | logicalOr => assignment
  | logicalAnd => logicalOr
  | equality => logicalAnd
  | relational => equality
  | additive => relational
  | multiplicative => additive
  | exponential => multiplicative

theorem rank_weaker (a : BindingPower) : a.weaker.rank = a.rank - 1 := by
  cases a <;> rfl

end BindingPower

end ExprCheck
