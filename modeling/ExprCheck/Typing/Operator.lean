import ExprCheck.Diagnostic.Basic
import ExprCheck.Token.Basic
import ExprCheck.Ty

/-!
# The types of tokens and operators

* `OperatorRule`: which types an operator takes and which type it gives.
* `OperatorRule.ofKind?`: the rules of the language. Assignment is read as an operator but has none.
* `Token.literalType`, `Token.signedType`, `Token.resultType`: the type of a leaf, of a signed
  operand and of an operator between two operands, or what is wrong with it.

An operator between two operands is refused first if it has no rule, then if it does not take one of
the types, and at last if the types do not merge.
-/

namespace ExprCheck

/-- The type that an operator gives. -/
inductive ResultRule where
  /-- The type into which those of the operands merge. -/
  | merged
  /-- A truth value. -/
  | bool
deriving DecidableEq

/-- Which types an operator takes, where none given means any, and which type it gives. -/
structure OperatorRule where
  accepted? : Option (List Ty)
  result : ResultRule
deriving DecidableEq

namespace OperatorRule

/-- Sums and repetitions, of numbers and of strings. -/
def additive : OperatorRule :=
  ⟨some [.int, .float, .string], .merged⟩

/-- Operations on numbers. -/
def arithmetic : OperatorRule :=
  ⟨some [.int, .float], .merged⟩

/-- Comparisons of numbers by size. -/
def relational : OperatorRule :=
  ⟨some [.int, .float], .bool⟩

/-- Comparisons of any values. -/
def equality : OperatorRule :=
  ⟨none, .bool⟩

/-- Operations on truth values. -/
def logical : OperatorRule :=
  ⟨some [.bool], .bool⟩

/-- The rule of an operator. -/
def ofKind? : TokenKind → Option OperatorRule
  | .plus | .star => some additive
  | .dash | .slash | .percent | .caret => some arithmetic
  | .less | .lessEquals | .greater | .greaterEquals => some relational
  | .equals | .notEquals => some equality
  | .andWord | .orWord => some logical
  | _ => none

/-- Whether the operator takes operands of a type. -/
def accepts (rule : OperatorRule) (ty : Ty) : Bool :=
  match rule.accepted? with
  | none => true
  | some types => types.contains ty

/-- The type that the operator gives for operands whose types merge into `merged`. -/
def resultType (rule : OperatorRule) (merged : Ty) : Ty :=
  match rule.result with
  | .merged => merged
  | .bool => .bool

end OperatorRule

namespace Token

/-- The type of a leaf. -/
def literalType (token : Token) : Except Fault Ty :=
  match token.kind with
  | .integer => .ok .int
  | .float => .ok .float
  | .char => .ok .char
  | .string => .ok .string
  | .trueWord | .falseWord => .ok .bool
  | .identifier => .error (.unsupportedIdentifier token.value)
  | kind => .error (.internalError ("literal node holds a " ++ kind.name ++ " token"))

/-- The type of an operand with a sign. -/
def signedType (operator : Token) (operand : Ty) : Except Fault Ty :=
  if operand.isNumeric then .ok operand
  else .error (.unaryTypeMismatch operator.value operand.name)

/-- The type of an operator between two operands. -/
def resultType (operator : Token) (left right : Ty) : Except Fault Ty :=
  match OperatorRule.ofKind? operator.kind with
  | none => .error (.internalError ("no typing rule for operator `" ++ operator.value ++ "`"))
  | some rule =>
    if rule.accepts left && rule.accepts right then
      match left.merge? right with
      | none => .error (.incompatibleTypes operator.value left.name right.name)
      | some merged => .ok (rule.resultType merged)
    else .error (.operandTypeMismatch operator.value left.name right.name)

end Token

end ExprCheck
