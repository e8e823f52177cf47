import ExprCheck.Position
import ExprCheck.Text.Quoted

/-!
# Diagnostics

* `Fault`: what can be wrong with a program, and what can go wrong in checking one.
* `Fault.name`, `Fault.detail`, `Fault.tip?`: the name of a fault, the sentence that describes it
  and the advice that goes with it.
* `Diagnostic`: a fault and its position.

Source text in a detail stands in double quotes and is escaped; in a tip it stands as it is. Types
are called by their names in both.
-/

namespace ExprCheck

/-- What is wrong. -/
inductive Fault where
  /-- A character starts no token. -/
  | unrecognisedToken (token : String)
  /-- A token cannot start an expression. -/
  | unexpectedToken (token : String)
  /-- A token cannot stand where it does, for the given reason. -/
  | unexpectedTokenDetailed (token reason : String)
  /-- A token stands in the place of another. -/
  | expectedToken (expected received : String)
  /-- A continuation of a conditional stands without one. -/
  | misplacedBranch (keyword : String)
  /-- The tree would grow deeper than it may. -/
  | nestingTooDeep (limit : Nat)
  /-- A name stands for nothing. -/
  | unsupportedIdentifier (name : String)
  /-- An operator does not take operands of these types. -/
  | operandTypeMismatch (operator left right : String)
  /-- The operands of an operator have types that do not merge. -/
  | incompatibleTypes (operator left right : String)
  /-- A sign does not take an operand of this type. -/
  | unaryTypeMismatch (operator operand : String)
  /-- A condition is no truth value. -/
  | nonBooleanCondition (received : String)
  /-- The branches of a conditional differ in type. -/
  | branchTypeMismatch (thenType elseType : String)
  /-- The tree is none that a program can have, or uses an operator without a rule. -/
  | internalError (message : String)
deriving DecidableEq

namespace Fault

/-- The name of a fault. -/
def name : Fault → String
  | unrecognisedToken .. => "UnrecognisedToken"
  | unexpectedToken .. => "UnexpectedToken"
  | unexpectedTokenDetailed .. => "UnexpectedTokenDetailed"
  | expectedToken .. => "ExpectedToken"
  | misplacedBranch .. => "MisplacedBranch"
  | nestingTooDeep .. => "NestingTooDeep"
  | unsupportedIdentifier .. => "UnsupportedIdentifier"
  | operandTypeMismatch .. => "OperandTypeMismatch"
  | incompatibleTypes .. => "IncompatibleTypes"
  | unaryTypeMismatch .. => "UnaryTypeMismatch"
  | nonBooleanCondition .. => "NonBooleanCondition"
  | branchTypeMismatch .. => "BranchTypeMismatch"
  | internalError .. => "InternalError"

/-- The sentence that describes a fault. -/
def detail : Fault → String
  | unrecognisedToken token => "unrecognised token: " ++ Text.quoted token
  | unexpectedToken token => "unexpected token: " ++ Text.quoted token
  | unexpectedTokenDetailed token reason =>
    "unexpected token (" ++ Text.quoted reason ++ "): " ++ Text.quoted token
  | expectedToken expected received =>
    "expected " ++ Text.quoted expected ++ ", received " ++ Text.quoted received
  | misplacedBranch keyword => Text.quoted keyword ++ " outside of an if expression"
  | nestingTooDeep limit => "expression nested deeper than " ++ toString limit ++ " levels"
  | unsupportedIdentifier name => "identifier resolution unsupported: " ++ Text.quoted name
  | operandTypeMismatch operator left right =>
    "operator " ++ Text.quoted operator ++ " does not support types " ++ left ++ " and " ++ right
  | incompatibleTypes operator left right =>
    "types " ++ left ++ " and " ++ right ++ " are incompatible for operator "
      ++ Text.quoted operator
  | unaryTypeMismatch operator operand =>
    "operator " ++ Text.quoted operator ++ " does not support type " ++ operand
  | nonBooleanCondition received => "condition must be boolean, received " ++ received
  | branchTypeMismatch thenType elseType =>
    "if and else branches have different types: " ++ thenType ++ " and " ++ elseType
  | internalError message => "internal error: " ++ message

/-- The advice that goes with a fault. -/
def tip? : Fault → Option String
  | unrecognisedToken _ => none
  | unexpectedToken token =>
    some ("Unexpected token: `" ++ token ++ "`, an expression cannot start here")
  | unexpectedTokenDetailed token reason =>
    some ("Unexpected token: `" ++ token ++ "`, " ++ reason)
  | expectedToken expected received =>
    some ("Expected `" ++ expected ++ "`, received `" ++ received ++ "`")
  | misplacedBranch keyword =>
    some ("`" ++ keyword ++ "` must follow the body of an `if` or `elsif`")
  | nestingTooDeep limit =>
    some ("Expressions may nest at most " ++ toString limit ++ " levels deep, split this one up")
  | unsupportedIdentifier name =>
    some ("Identifier `" ++ name ++ "` cannot be resolved, variables are not supported yet")
  | operandTypeMismatch operator left right =>
    some ("Operator `" ++ operator ++ "` does not support operands `" ++ left ++ "` and `" ++ right
      ++ "`")
  | incompatibleTypes operator left right =>
    some ("Types `" ++ left ++ "` and `" ++ right ++ "` cannot be combined by `" ++ operator ++ "`")
  | unaryTypeMismatch operator operand =>
    some ("Operator `" ++ operator ++ "` does not support operand `" ++ operand ++ "`")
  | nonBooleanCondition received =>
    some ("Condition must be `Bool`, received `" ++ received ++ "`")
  | branchTypeMismatch thenType elseType =>
    some ("`if` branch is `" ++ thenType ++ "` but `else` branch is `" ++ elseType ++ "`")
  | internalError message => some ("Internal error: " ++ message)

/-- Whether the fault lies with the checker and not with the program that it checks. -/
def isInternal : Fault → Bool
  | internalError _ => true
  | _ => false

end Fault

/-- A fault and where it was found. -/
structure Diagnostic where
  fault : Fault
  position : Position
deriving DecidableEq

namespace Diagnostic

/-- The detail of the fault, with the name of the file and the offset. -/
def message (diagnostic : Diagnostic) : String :=
  diagnostic.fault.detail ++ " at " ++ diagnostic.position.file ++ ":"
    ++ toString diagnostic.position.offset.toNat

/-- Whether the fault lies with the checker. -/
def isInternal (diagnostic : Diagnostic) : Bool :=
  diagnostic.fault.isInternal

end Diagnostic

end ExprCheck
