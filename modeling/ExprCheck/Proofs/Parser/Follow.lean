import ExprCheck.Proofs.Parser.Reading
import ExprCheck.Proofs.Parser.Rule

/-!
# What may follow a phrase

* `EndsChain`: the next token does not continue a conditional.
* `Stops`: the next token moreover is no operator, so every expression ends before it.
* `Reads.alone`: before such a token an operand is an expression at every power.
* `Reads.ends`: an expression at a power ends before a token that does not bind tighter.
* `Reads.followedBy`: how a phrase is read does not depend on what stands behind it, if that stops
  every expression. `Row.followedBy` says the same of expressions in a row.
-/

namespace ExprCheck

/-- A token of this kind ends every expression and does not continue a conditional. -/
def TokenKind.Closes (kind : TokenKind) : Prop :=
  Rules.standardInfix? kind = none ∧ kind ≠ .elsifWord ∧ kind ≠ .elseWord

instance (kind : TokenKind) : Decidable kind.Closes :=
  inferInstanceAs (Decidable (_ ∧ _ ∧ _))

/-- The next token does not continue a conditional. -/
def EndsChain (tokens : List Token) : Prop :=
  ∃ next later, tokens = next :: later ∧ next.kind ≠ .elsifWord ∧ next.kind ≠ .elseWord

/-- The next token ends every expression and does not continue a conditional. -/
def Stops (tokens : List Token) : Prop :=
  ∃ next later, tokens = next :: later ∧ next.kind.Closes

theorem TokenKind.closes_of_isLiteral {kind : TokenKind} (h : kind.isLiteral) : kind.Closes := by
  revert h
  cases kind <;> decide

theorem Stops.of_kind {first : Token} {kind : TokenKind} (eq : first.kind = kind)
    (closes : kind.Closes) (later : List Token) : Stops (first :: later) :=
  ⟨first, later, rfl, eq ▸ closes⟩

theorem Stops.endsChain {tokens : List Token} (h : Stops tokens) : EndsChain tokens := by
  obtain ⟨next, later, eq, -, notElsif, notElse⟩ := h
  exact ⟨next, later, eq, notElsif, notElse⟩

theorem Stops.append {tokens : List Token} (h : Stops tokens) (more : List Token) :
    Stops (tokens ++ more) := by
  obtain ⟨next, later, rfl, closes⟩ := h
  exact ⟨next, later ++ more, rfl, closes⟩

theorem EndsChain.of_operator {operator : Token} (h : operator.kind ∈ Rules.binaryOperators)
    (later : List Token) : EndsChain (operator :: later) := by
  refine ⟨operator, later, rfl, ?_, ?_⟩ <;>
  · intro eq
    rw [eq] at h
    revert h
    decide

namespace Reads

theorem stop_of_stops {rest : List Token} (h : Stops rest) (power : BindingPower) (left : Expr) :
    Reads (.operators power left) rest left rest := by
  obtain ⟨next, later, rfl, notFound, -⟩ := h
  refine .stop fun rule found => ?_
  rw [notFound] at found
  cases found

/-- An operand before a token that ends every expression is an expression. -/
theorem alone {tokens : List Token} {expr : Expr} {rest : List Token}
    (h : Reads .operand tokens expr rest) (stops : Stops rest) (power : BindingPower) :
    Reads (.expression power) tokens expr rest :=
  .expression h (stop_of_stops stops power expr)

end Reads

/-! ### Where an expression ends -/

/-- The next token does not bind tighter than a power. -/
def BindingPower.EndsBefore (power : BindingPower) (tokens : List Token) : Prop :=
  ∃ next later, tokens = next :: later ∧
    ∀ rule, Rules.standardInfix? next.kind = some rule → ¬ power < rule.power

/-- After an expression or after operators at a power, no operator is left that binds tighter. -/
def Phrase.EndsBefore (rest : List Token) : Phrase → Prop
  | .expression power | .operators power _ => power.EndsBefore rest
  | .operand | .block | .branch => True

theorem Reads.ends {phrase : Phrase} {tokens : List Token} {expr : Expr} {rest : List Token}
    (h : Reads phrase tokens expr rest) : phrase.EndsBefore rest := by
  induction h using Reads.induct with
  | expression _ _ _ later => exact later
  | stop stops => exact ⟨_, _, rfl, stops⟩
  | operator _ _ _ _ _ later => exact later
  | _ => trivial

/-! ### What stands behind a phrase -/

section FollowedBy

variable {rest rest' middle : List Token}

/-- Whatever part of `middle` stands before the rest, the phrase is also read where the other rest
stands behind that part. -/
def Exchanges (rest rest' : List Token) (phrase : Phrase) (tokens : List Token) (expr : Expr)
    (middle : List Token) : Prop :=
  ∀ front, middle = front ++ rest → ∃ taken, tokens = taken ++ rest ∧
    Reads phrase (taken ++ rest') expr (front ++ rest')

/-- The next token is the same before either rest, unless the rest is next. -/
theorem same_next_or_stops {next : Token} {later front : List Token}
    (eq : next :: later = front ++ rest) (stops : Stops rest') :
    (∃ more, front ++ rest' = next :: more) ∨ Stops (front ++ rest') := by
  cases front with
  | nil => exact .inr stops
  | cons first front =>
    obtain ⟨rfl, -⟩ := List.cons.inj eq
    exact .inl ⟨front ++ rest', rfl⟩

/-- The first token of a phrase stands before the rest. -/
theorem Reads.first_taken {phrase : Phrase} {first : Token} {tokens taken front : List Token}
    {expr : Expr} (h : Reads phrase (first :: tokens) expr (front ++ rest))
    (takes : phrase.least = 1) (eq : first :: tokens = taken ++ rest) :
    ∃ more, taken = first :: more ∧ tokens = more ++ rest := by
  have shorter := h.length_le
  rw [takes, eq, List.length_append, List.length_append] at shorter
  cases taken with
  | nil =>
    rw [List.length_nil] at shorter
    omega
  | cons first' more =>
    obtain ⟨rfl, rfl⟩ := List.cons.inj eq
    exact ⟨more, rfl, rfl⟩

theorem Row.exchange {tokens : List Token} {items : List Expr}
    (row : Row (fun tokens item middle => ∃ _ : Reads (.expression .lowest) tokens item middle,
      Exchanges rest rest' (.expression .lowest) tokens item middle) tokens items middle)
    (front : List Token) (eq : middle = front ++ rest) :
    ∃ taken, tokens = taken ++ rest ∧
      Row (Reads (.expression .lowest)) (taken ++ rest') items (front ++ rest') := by
  induction row with
  | nil => exact ⟨front, eq, .nil⟩
  | cons first _ ih =>
    obtain ⟨behind, rfl, row⟩ := ih eq
    obtain ⟨-, exchanges⟩ := first
    obtain ⟨taken, rfl, reads⟩ := exchanges behind rfl
    exact ⟨taken, rfl, .cons reads row⟩

/-- No phrase asks more of the token behind it than whether that one goes on with it. -/
theorem Reads.exchange {phrase : Phrase} {tokens : List Token} {expr : Expr}
    (h : Reads phrase tokens expr middle) (stops : Stops rest') :
    Exchanges rest rest' phrase tokens expr middle := by
  induction h using Reads.induct with
  | expression _ _ ih ih' =>
    intro front eq
    obtain ⟨behind, rfl, later⟩ := ih' front eq
    obtain ⟨taken, rfl, first⟩ := ih behind rfl
    exact ⟨taken, rfl, .expression first later⟩
  | @literal token _ isLiteral =>
    rintro front rfl
    exact ⟨token :: front, rfl, .literal isLiteral⟩
  | @sign operator _ _ _ isSign _ ih =>
    intro front eq
    obtain ⟨taken, rfl, inner⟩ := ih front eq
    exact ⟨operator :: taken, rfl, .sign isSign inner⟩
  | @group opening closing _ _ _ isOpening _ isClosing ih =>
    rintro front rfl
    obtain ⟨taken, rfl, inner⟩ := ih (closing :: front) rfl
    exact ⟨opening :: taken, rfl, .group isOpening inner isClosing⟩
  | blockOperand _ ih =>
    intro front eq
    obtain ⟨taken, rfl, inner⟩ := ih front eq
    exact ⟨taken, rfl, .blockOperand inner⟩
  | @branchOperand word _ _ _ isWord inner ih =>
    rintro front rfl
    obtain ⟨taken, eq, inner'⟩ := ih front rfl
    obtain ⟨more, rfl, rfl⟩ := inner.first_taken rfl eq
    exact ⟨word :: more, rfl, .branchOperand isWord inner'⟩
  | @stop power left token _ ends =>
    intro front eq
    refine ⟨front, eq, ?_⟩
    rcases same_next_or_stops eq stops with ⟨more, same⟩ | stops
    · exact same ▸ .stop ends
    · exact .stop_of_stops stops power left
  | @operator _ _ _ _ _ _ _ _ operator found tighter _ _ ih ih' =>
    intro front eq
    obtain ⟨behind, rfl, later⟩ := ih' front eq
    obtain ⟨taken, rfl, operand⟩ := ih behind rfl
    exact ⟨operator :: taken, rfl, .operator found tighter operand later⟩
  | @block opening closing _ _ _ isOpening _ isClosing row =>
    rintro front rfl
    obtain ⟨taken, rfl, inner⟩ := row.exchange (closing :: front) rfl
    exact ⟨opening :: taken, rfl, .block isOpening inner isClosing⟩
  | @ifThen word _ _ _ _ next _ _ _ notElsif notElse ih ih' =>
    intro front eq
    obtain ⟨behind, rfl, body⟩ := ih' front eq
    obtain ⟨taken, rfl, condition⟩ := ih behind rfl
    have ends : EndsChain (front ++ rest') := by
      rcases same_next_or_stops eq stops with ⟨more, same⟩ | stops
      · exact ⟨next, more, same, notElsif, notElse⟩
      · exact stops.endsChain
    obtain ⟨next', later, same, notElsif', notElse'⟩ := ends
    rw [same] at body ⊢
    exact ⟨word :: taken, rfl, .ifThen condition body notElsif' notElse'⟩
  | @ifElse word _ _ _ _ next _ _ _ _ _ isElse _ ih ih' ih'' =>
    intro front eq
    obtain ⟨behind, rfl, otherwise⟩ := ih'' front eq
    obtain ⟨between, rfl, body⟩ := ih' (next :: behind) rfl
    obtain ⟨taken, rfl, condition⟩ := ih between rfl
    exact ⟨word :: taken, rfl, .ifElse condition body isElse otherwise⟩
  | @ifElsif word _ _ _ _ next _ _ _ _ _ isElsif third ih ih' ih'' =>
    rintro front rfl
    obtain ⟨behind, eq, otherwise⟩ := ih'' front rfl
    obtain ⟨more, rfl, rfl⟩ := third.first_taken rfl eq
    obtain ⟨between, rfl, body⟩ := ih' (next :: more) rfl
    obtain ⟨taken, rfl, condition⟩ := ih between rfl
    exact ⟨word :: taken, rfl, .ifElsif condition body isElsif otherwise⟩

/-- How a phrase is read does not depend on what stands behind it, if that stops every phrase. -/
theorem Reads.followedBy {phrase : Phrase} {tokens : List Token} {expr : Expr}
    (h : Reads phrase tokens expr rest) (stops : Stops rest') :
    ∃ taken, tokens = taken ++ rest ∧ Reads phrase (taken ++ rest') expr rest' :=
  h.exchange stops [] rfl

theorem Row.followedBy {tokens : List Token} {items : List Expr}
    (h : Row (Reads (.expression .lowest)) tokens items rest) (stops : Stops rest') :
    ∃ taken, tokens = taken ++ rest ∧
      Row (Reads (.expression .lowest)) (taken ++ rest') items rest' :=
  Row.exchange (h.mono fun _ _ _ reads => ⟨reads, reads.exchange stops⟩) [] rfl

end FollowedBy

end ExprCheck
