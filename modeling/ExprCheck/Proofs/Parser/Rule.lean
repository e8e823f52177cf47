import ExprCheck.Parser.Rule

/-!
# The operators of the language

* `BindingPower.nestsRight`: the powers at which a chain nests to the right.
* `Rules.binaryOperators`: the operators between two operands, which are the kinds with a rule.
* `Rules.lowest_lt_of_standardInfix?`: an expression at the lowest power takes every operator.
* `Rules.operandPower_of_standardInfix?`: the power of the right operand, from that of the operator
  alone.
-/

namespace ExprCheck

namespace BindingPower

/-- Operators of this power nest to the right. -/
def nestsRight : BindingPower → Bool
  | assignment | exponential => true
  | _ => false

theorem rank_injective {a b : BindingPower} (h : a.rank = b.rank) : a = b := by
  revert h
  cases a <;> cases b <;> decide

theorem lt_iff_rank {a b : BindingPower} : a < b ↔ a.rank < b.rank :=
  Iff.rfl

theorem le_iff_rank {a b : BindingPower} : a ≤ b ↔ a.rank ≤ b.rank :=
  Iff.rfl

end BindingPower

namespace Rules

/-- The operators that stand between two operands. -/
def binaryOperators : List TokenKind :=
  [.plus, .dash, .star, .slash, .percent, .caret, .equals, .notEquals, .less, .lessEquals, .greater,
   .greaterEquals, .andWord, .orWord, .assignment]

theorem mem_binaryOperators_iff (kind : TokenKind) :
    kind ∈ binaryOperators ↔ (Rules.standardInfix? kind).isSome := by
  cases kind <;> decide

theorem lowest_lt_of_standardInfix? {kind : TokenKind} {rule : InfixRule}
    (h : standardInfix? kind = some rule) : BindingPower.lowest < rule.power := by
  revert rule
  cases kind <;> simp [standardInfix?] <;> decide

theorem powerOf_of_standardInfix? {kind : TokenKind} {rule : InfixRule}
    (h : standardInfix? kind = some rule) : standard.powerOf kind = rule.power := by
  simp only [powerOf, standard, h]

/-- Every sign is an operator between two operands too. -/
theorem standardInfix?_of_isSign {kind : TokenKind} (h : kind = .plus ∨ kind = .dash) :
    standardInfix? kind = some ⟨.additive, .left⟩ := by
  rcases h with rfl | rfl <;> rfl

theorem operandPower_of_standardInfix? {kind : TokenKind} {rule : InfixRule}
    (h : standardInfix? kind = some rule) :
    rule.operandPower = if rule.power.nestsRight then rule.power.weaker else rule.power := by
  revert rule
  cases kind <;> simp [standardInfix?] <;> rfl

/-- Of the operators that nest to the right there is one at each of their powers. -/
theorem nestsRight_powerOf_iff (kind : TokenKind) :
    (standard.powerOf kind).nestsRight ↔ kind = .caret ∨ kind = .assignment := by
  cases kind <;> decide

end Rules

end ExprCheck
