import ExprCheck.Parser.Power
import ExprCheck.Token.Kind

/-!
# What a token means to the parser

* `PrefixRule`: how an expression is read that a token of some kind starts.
* `InfixRule`: how tightly an operator binds, and to which side a chain of it nests.
* `Rules`: the rules for each kind of token. They can be changed one kind at a time.
* `Rules.standard`: the rules of the language.

The assignment operator is read like any other; that it has no meaning yet is for the type checker
to say.
-/

namespace ExprCheck

/-- How an expression is read that starts with a token of some kind. -/
inductive PrefixRule where
  /-- A leaf, which is the token. -/
  | literal
  /-- A sign and its operand. -/
  | sign
  /-- An expression in round brackets. -/
  | group
  /-- Expressions in curly brackets. -/
  | block
  /-- A conditional. -/
  | branch
  /-- A continuation of a conditional that is not there. -/
  | misplaced
deriving DecidableEq

/-- The side to which a chain of one operator nests. -/
inductive Associativity where
  | left
  | right
deriving DecidableEq

/-- How an operator between two operands is read. -/
structure InfixRule where
  power : BindingPower
  associativity : Associativity
deriving DecidableEq

namespace InfixRule

/-- The power at which the right operand is read. -/
def operandPower (rule : InfixRule) : BindingPower :=
  match rule.associativity with
  | .left => rule.power
  | .right => rule.power.weaker

end InfixRule

/-- The rules for each kind of token, as far as there are any. -/
structure Rules where
  prefixRule? : TokenKind → Option PrefixRule
  infixRule? : TokenKind → Option InfixRule

namespace Rules

/-- No rule for any kind. -/
def none : Rules :=
  ⟨fun _ => .none, fun _ => .none⟩

/-- How an expression of the language is read, by the kind of its first token. -/
def standardPrefix? : TokenKind → Option PrefixRule
  | .integer | .float | .string | .char | .trueWord | .falseWord | .identifier => some .literal
  | .plus | .dash => some .sign
  | .openParen => some .group
  | .openCurly => some .block
  | .ifWord => some .branch
  | .elsifWord | .elseWord => some .misplaced
  | _ => .none

/-- The operators of the language. -/
def standardInfix? : TokenKind → Option InfixRule
  | .assignment => some ⟨.assignment, .right⟩
  | .orWord => some ⟨.logicalOr, .left⟩
  | .andWord => some ⟨.logicalAnd, .left⟩
  | .equals | .notEquals => some ⟨.equality, .left⟩
  | .less | .lessEquals | .greater | .greaterEquals => some ⟨.relational, .left⟩
  | .plus | .dash => some ⟨.additive, .left⟩
  | .star | .slash | .percent => some ⟨.multiplicative, .left⟩
  | .caret => some ⟨.exponential, .right⟩
  | _ => .none

/-- The rules of the language. -/
def standard : Rules :=
  ⟨standardPrefix?, standardInfix?⟩

/-- The rules of `new`, and those of `old` for the kinds that `new` has none for. -/
def withFallback (new old : Rules) : Rules :=
  ⟨fun kind => (new.prefixRule? kind).or (old.prefixRule? kind),
   fun kind => (new.infixRule? kind).or (old.infixRule? kind)⟩

/-- Other rules for expressions that start with one kind of token. -/
def setPrefix (kind : TokenKind) (rule : PrefixRule) (rules : Rules) : Rules :=
  { rules with prefixRule? := fun k => if k = kind then some rule else rules.prefixRule? k }

/-- Other rules for one kind of token as an operator. -/
def setInfix (kind : TokenKind) (rule : InfixRule) (rules : Rules) : Rules :=
  { rules with infixRule? := fun k => if k = kind then some rule else rules.infixRule? k }

/-- The kinds that can start an expression. -/
def prefixKinds (rules : Rules) : List TokenKind :=
  TokenKind.all.filter fun kind => (rules.prefixRule? kind).isSome

/-- The kinds that are operators. -/
def infixKinds (rules : Rules) : List TokenKind :=
  TokenKind.all.filter fun kind => (rules.infixRule? kind).isSome

/-- The power of a kind as an operator. A kind that is none counts as the weakest. -/
def powerOf (rules : Rules) (kind : TokenKind) : BindingPower :=
  match rules.infixRule? kind with
  | some rule => rule.power
  | .none => .lowest

end Rules

end ExprCheck
