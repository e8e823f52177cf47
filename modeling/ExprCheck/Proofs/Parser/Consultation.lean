import ExprCheck.Proofs.Parser.Composition

/-!
# What the rules are asked

The rules of a parser are asked about the current token and about no other, and each of them is
asked before the token is passed:

* `ParserM.meaning`: the current token, with what the rules say about it.
* `sign_eq`, `extend_succ`, `chain_eq`: the rules of the parser that ask something, put together
  from `meaning`.
* `ParserM.Pervades`: the properties of steps that go through every way of putting steps together
  and hold of the basic steps, of which `meaning` is one and to look at all the rules is not.
* `Pervades.expression`: such a property holds of the reading of expressions.
-/

namespace ExprCheck

/-- A token, with what the rules say about its kind. -/
structure Meaning where
  token : Token
  prefixRule? : Option PrefixRule
  infixRule? : Option InfixRule

/-- The power of a token as an operator. A token that is none counts as the weakest. -/
def Meaning.power (meaning : Meaning) : BindingPower :=
  match meaning.infixRule? with
  | some rule => rule.power
  | none => .lowest

variable {σ : Type} [TokenSource σ]

/-- The current token, with what the rules say about its kind. -/
def Parser.meaning (parser : Parser σ) : Meaning :=
  ⟨parser.current, parser.rules.prefixRule? parser.current.kind,
    parser.rules.infixRule? parser.current.kind⟩

namespace ParserM

/-- The current token, which is not passed, with what the rules say about it. -/
def meaning : ParserM σ Meaning := fun parser =>
  .ok parser.meaning parser

variable (nested : BindingPower → ParserM σ Expr)

theorem sign_eq : sign nested = (do
    let meaning ← meaning
    let operator ← advance
    let operand ← nested meaning.power
    return .unary () operator operand ⟨operator.span.start, operand.span.stop⟩) :=
  rfl

theorem extend_succ (power : BindingPower) (rounds : Nat) (left : Expr) :
    extend nested power (rounds + 1) left = (do
      let meaning ← meaning
      match meaning.infixRule? with
      | none => return left
      | some rule =>
        if power < rule.power then
          descend
          let left ← application nested rule left
          extend nested power rounds left
        else return left) :=
  rfl

theorem chain_eq (power : BindingPower) : chain nested power = (do
    let meaning ← meaning
    match meaning.prefixRule? with
    | none => throw meaning.token.unexpected
    | some rule =>
      descend
      write (.operand meaning.token.kind meaning.token.start.offset)
      let left ← operand nested rule
      extend nested power levels left) :=
  rfl

/-- What holds of all basic steps of reading, if the rules are asked about the current token only,
and of steps that are put together from steps of which it holds. -/
structure Pervades (P : (α : Type) → ParserM σ α → Prop) : Prop extends Combines P where
  meaning : P Meaning meaning
  refuseDepth : ∀ {α : Type}, P α refuseDepth
  descend : P Unit descend
  write : ∀ entry, P Unit (write entry)
  restoringDepth : ∀ {α : Type} {step : ParserM σ α}, P α step → P α (restoringDepth step)

namespace Pervades

variable {P : (α : Type) → ParserM σ α → Prop} (pervades : Pervades P)
  {nested : BindingPower → ParserM σ Expr} (inner : ∀ power, P Expr (nested power))

include pervades inner

theorem sign : P Expr (sign nested) := by
  rw [sign_eq]
  exact pervades.bind pervades.meaning fun _ => pervades.bind pervades.advance fun _ =>
    pervades.bind (inner _) fun _ => pervades.pure _

theorem branchWithin (rounds : Nat) : P Expr (branchWithin nested rounds) := by
  have block := pervades.block inner
  induction rounds with
  | zero => exact pervades.refuseDepth
  | succ rounds ih =>
    refine pervades.bind pervades.advance fun word => pervades.bind (inner _) fun condition =>
      pervades.bind block fun body => pervades.bind pervades.current fun token => ?_
    split
    · exact pervades.bind pervades.descend fun _ => pervades.bind ih fun _ => pervades.pure _
    · exact pervades.bind pervades.advance fun _ => pervades.bind block fun _ => pervades.pure _
    · exact pervades.pure _

theorem operand (rule : PrefixRule) : P Expr (operand nested rule) :=
  pervades.toCombines.operand inner rule (fun _ => pervades.sign inner)
    fun _ => pervades.branchWithin inner levels

theorem extend (power : BindingPower) (rounds : Nat) (left : Expr) :
    P Expr (extend nested power rounds left) := by
  induction rounds generalizing left with
  | zero => exact pervades.refuseDepth
  | succ rounds ih =>
    rw [extend_succ]
    refine pervades.bind pervades.meaning fun meaning => ?_
    split
    · exact pervades.pure _
    · split
      · exact pervades.bind pervades.descend fun _ =>
          pervades.bind (pervades.application inner _ left) fun left => ih left
      · exact pervades.pure _

theorem chain (power : BindingPower) : P Expr (chain nested power) := by
  rw [chain_eq]
  refine pervades.bind pervades.meaning fun meaning => ?_
  split
  · exact pervades.throw _
  · exact pervades.bind pervades.descend fun _ => pervades.bind (pervades.write _) fun _ =>
      pervades.bind (pervades.operand inner _) fun left => pervades.extend inner power levels left

omit inner in
theorem expressionWithin (rounds : Nat) (power : BindingPower) :
    P Expr (expressionWithin rounds power) := by
  induction rounds generalizing power with
  | zero => exact pervades.refuseDepth
  | succ rounds ih => exact pervades.restoringDepth (pervades.chain ih power)

omit inner in
/-- What goes through all ways of composing, and holds of the basic steps, holds of expressions. -/
theorem expression (power : BindingPower) : P Expr (expression power) :=
  pervades.expressionWithin levels power

end Pervades

end ParserM

end ExprCheck
