import ExprCheck.Check
import ExprCheck.Proofs.Parser.Agreement
import ExprCheck.Proofs.Typing.Correspondence

/-!
# Only the kinds and values of tokens matter

Two sources, of one kind or of two, whose tokens are the same but for their places are read and
checked alike, up to these places:

* `ParserM.Tandem.outcome`: steps in tandem that leave nothing out have outcomes that match.
* `parse_matches`, `parseExpression_matches`: sources with tokens that match have trees that match,
  or the same fault at places that correspond.
-/

namespace ExprCheck

variable {σ τ α β : Type} [TokenSource σ] [TokenSource τ] {places : Correspondence}

/-- Steps in tandem have outcomes that match, if nothing is left out. -/
theorem ParserM.Tandem.outcome {passes : Nat} {agree : α → β → Prop} {step : ParserM σ α}
    {step' : ParserM τ β} {parser : Parser σ} {other : Parser τ}
    (h : Tandem places [] [] passes agree step step' parser other) :
    (parser.outcome step).Matches places agree (other.outcome step') := by
  cases h with
  | ok ran ran' agrees =>
    refine .ok ?_ ?_ agrees
    · rw [Parser.outcome, ran]
    · rw [Parser.outcome, ran']
  | error ran ran' same =>
    refine .error ?_ ?_ same
    · rw [Parser.outcome, ran]
    · rw [Parser.outcome, ran']
  | lost leads =>
    unfold Leads at leads
    cases ran : step parser with
    | ok value after =>
      rw [ran] at leads
      exact absurd leads.1.isPast after.not_isPast_nil
    | error diagnostic after =>
      rw [ran] at leads
      exact absurd leads after.not_isPast_nil

theorem Parser.inTandem_ofSource {source : σ} {source' : τ}
    (same : List.Forall₂ (Token.Matches places) (TokenSource.tokens source)
      (TokenSource.tokens source')) :
    (Parser.ofSource Rules.standard source).InTandem places [] []
      (Parser.ofSource Rules.standard source') := by
  obtain ⟨later, eq⟩ := TokenSource.tokens_eq_cons source
  refine ⟨rfl, .inl ⟨rfl, ⟨TokenSource.tokens source, _, ?_, same, ?_, ?_⟩, rfl, .nil⟩⟩
  · rw [eq]
    exact List.cons_ne_nil _ _
  · exact (List.append_nil _).symm
  · exact (List.append_nil _).symm

/-- Programs with tokens that match have trees that match. -/
theorem parse_matches {source : σ} {source' : τ}
    (same : List.Forall₂ (Token.Matches places) (TokenSource.tokens source)
      (TokenSource.tokens source')) :
    (parse source).Matches places (Expr.ProgramMatches places) (parse source') :=
  (ParserM.program_tandem (Parser.inTandem_ofSource same)).outcome

/-- Single expressions with tokens that match have trees that match. -/
theorem parseExpression_matches {source : σ} {source' : τ}
    (same : List.Forall₂ (Token.Matches places) (TokenSource.tokens source)
      (TokenSource.tokens source')) :
    (parseExpression source).Matches places (Tree.Matches places) (parseExpression source') :=
  (ParserM.soleExpression_tandem (Parser.inTandem_ofSource same)).outcome

end ExprCheck
