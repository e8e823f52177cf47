import ExprCheck.Proofs.Parser.Follow

/-!
# Operators after an operand

A text can have many derivations, since `-` starts an operand and also joins two of them, and the
parser follows only one. That the others are not lost is seen on the operators after an operand:

* `Grammar.spread`: operators and their right operands, as tokens.
* `Grammar.Absorbs`: at any power, these operators can be read up to some of them, and at the lowest
  power up to the last.
* `Grammar.IsOperand`: tokens that can be read as an operand, whatever operators follow. A signed
  operand takes some of them, and those that it leaves are again such operators.
* `Grammar.Absorbed.of_operands`: operators between such operands are absorbed.
-/

namespace ExprCheck

open Rules (binaryOperators mem_binaryOperators_iff)

namespace Grammar

/-- Operators and their right operands as tokens. -/
def spread (operations : List (Token × List Token)) : List Token :=
  operations.flatMap fun operation => operation.1 :: operation.2

theorem spread_cons (operator : Token) (operand : List Token)
    (operations : List (Token × List Token)) :
    spread ((operator, operand) :: operations) = operator :: (operand ++ spread operations) :=
  rfl

theorem spread_append (first later : List (Token × List Token)) :
    spread (first ++ later) = spread first ++ spread later :=
  List.flatMap_append

/-- At any power, the operators up to some of them can be read, and at the lowest power all of
them. -/
def Absorbs (operations : List (Token × List Token)) (rest : List Token) : Prop :=
  ∀ power left, ∃ expr remaining,
    Reads (.operators power left) (spread operations ++ rest) expr (spread remaining ++ rest) ∧
      remaining <:+ operations ∧ (power = .lowest → remaining = [])

/-- Operators that can be read from each of them on, before tokens at which an expression ends. -/
structure Absorbed (operations : List (Token × List Token)) (rest : List Token) : Prop where
  operators : ∀ operation ∈ operations, operation.1.kind ∈ binaryOperators
  stops : Stops rest
  absorbs : ∀ remaining, remaining <:+ operations → Absorbs remaining rest

/-- Tokens that can be read as an operand, with some of the operators that follow. -/
def IsOperand (tokens : List Token) : Prop :=
  ∀ operations rest, Absorbed operations rest → ∃ expr remaining,
    Reads .operand (tokens ++ (spread operations ++ rest)) expr (spread remaining ++ rest) ∧
      remaining <:+ operations

namespace Absorbed

variable {operations : List (Token × List Token)} {rest : List Token}

theorem endsChain (h : Absorbed operations rest) : EndsChain (spread operations ++ rest) := by
  cases operations with
  | nil => exact h.stops.endsChain
  | cons operation operations =>
    exact EndsChain.of_operator (h.operators operation List.mem_cons_self) _

/-- An operand and the operators after it, up to those that bind no tighter than the power. -/
theorem expression {operand : List Token} (isOperand : IsOperand operand)
    (h : Absorbed operations rest) (power : BindingPower) : ∃ expr remaining,
    Reads (.expression power) (operand ++ (spread operations ++ rest)) expr
        (spread remaining ++ rest) ∧
      remaining <:+ operations ∧ (power = .lowest → remaining = []) := by
  obtain ⟨left, middle, first, middleSuffix⟩ := isOperand operations rest h
  obtain ⟨expr, remaining, later, remainingSuffix, all⟩ := h.absorbs middle middleSuffix power left
  exact ⟨expr, remaining, .expression first later, remainingSuffix.trans middleSuffix, all⟩

theorem nil (stops : Stops rest) : Absorbed [] rest where
  operators := fun _ mem => absurd mem List.not_mem_nil
  stops := stops
  absorbs := by
    intro remaining isSuffix power left
    obtain rfl := List.suffix_nil.1 isSuffix
    exact ⟨left, [], .stop_of_stops stops power left, List.suffix_rfl, fun _ => rfl⟩

/-- One more operator in front: it is read with its operand and what that takes, or everything stops
at it. -/
theorem cons {operator : Token} {operand : List Token} (mem : operator.kind ∈ binaryOperators)
    (isOperand : IsOperand operand) (h : Absorbed operations rest) :
    Absorbed ((operator, operand) :: operations) rest where
  operators := by
    intro operation isMember
    rcases List.mem_cons.1 isMember with rfl | isMember
    · exact mem
    · exact h.operators operation isMember
  stops := h.stops
  absorbs := by
    intro remaining isSuffix power left
    rcases List.suffix_cons_iff.1 isSuffix with rfl | isSuffix
    · obtain ⟨rule, found⟩ := Option.isSome_iff_exists.1 ((mem_binaryOperators_iff _).1 mem)
      by_cases tighter : power < rule.power
      · obtain ⟨right, middle, reads, middleSuffix, -⟩ := h.expression isOperand rule.operandPower
        obtain ⟨expr, remaining, later, remainingSuffix, all⟩ := h.absorbs middle middleSuffix power
          (.binary () left operator right ⟨left.span.start, right.span.stop⟩)
        refine ⟨expr, remaining, ?_, ?_, all⟩
        · rw [spread_cons, List.cons_append, List.append_assoc]
          exact .operator found tighter reads later
        · exact (remainingSuffix.trans middleSuffix).trans (List.suffix_cons _ _)
      · refine ⟨left, (operator, operand) :: operations, .stop ?_, List.suffix_rfl, ?_⟩
        · intro rule' found'
          rw [found] at found'
          obtain rfl := Option.some.inj found'
          exact tighter
        · intro isLowest
          rw [isLowest] at tighter
          exact absurd (Rules.lowest_lt_of_standardInfix? found) tighter
    · exact h.absorbs remaining isSuffix power left

end Absorbed

theorem Absorbed.of_operands {operations : List (Token × List Token)} {rest : List Token}
    (stops : Stops rest)
    (h : ∀ operation ∈ operations, operation.1.kind ∈ binaryOperators ∧ IsOperand operation.2) :
    Absorbed operations rest := by
  induction operations with
  | nil => exact .nil stops
  | cons operation operations ih =>
    obtain ⟨mem, isOperand⟩ := h operation List.mem_cons_self
    exact .cons mem isOperand (ih fun other isMember => h other (List.mem_cons_of_mem _ isMember))

end Grammar

end ExprCheck
