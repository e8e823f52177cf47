import ExprCheck.Proofs.Parser.Lockstep
import ExprCheck.Proofs.Token.Scan
import ExprCheck.Tree.Equality

/-!
# Only the tokens of a source matter

Two sources, of one kind or of two, that have the same tokens up to the end of the input are read
alike. They are two parsers in step that share all their tokens, so neither is ever past what they
share.

* `parse_congr`, `parseExpression_congr`: sources with the same tokens have the same outcome.
* `parse_ofTokens_of_tokenize`: tokens that are scanned beforehand are read as the source is read
  while it is scanned.
-/

namespace ExprCheck

variable {σ τ α : Type} [TokenSource σ] [TokenSource τ]

open ParserM

/-- There is always the end of the input to be read. -/
theorem Parser.not_isPast_nil (parser : Parser σ) : ¬ parser.IsPast [] := by
  intro isPast
  exact absurd parser.length_tokens_pos (Nat.not_lt.2 isPast)

/-- Steps that end alike have the same outcome and the same log. -/
theorem ParserM.Alike.outcome {passes : Nat} {step : ParserM σ α} {step' : ParserM τ α}
    {parser : Parser σ} {other : Parser τ} (h : Alike [] [] passes step step' parser other) :
    other.outcome step' = parser.outcome step := by
  cases h with
  | ok ran ran' _ shares _ => simp only [Parser.outcome, ran, ran', shares.log]
  | error ran ran' shares _ => simp only [Parser.outcome, ran, ran', shares.log]
  | lost leads =>
    unfold Leads at leads
    cases ran : step parser with
    | ok value after =>
      rw [ran] at leads
      exact absurd leads.isPast after.not_isPast_nil
    | error diagnostic after =>
      rw [ran] at leads
      exact absurd leads after.not_isPast_nil

theorem Parser.inStep_ofSource {source : σ} {source' : τ}
    (same : TokenSource.tokens source' = TokenSource.tokens source) :
    (Parser.ofSource Rules.standard source).InStep [] []
      (Parser.ofSource Rules.standard source') := by
  obtain ⟨later, eq⟩ := TokenSource.tokens_eq_cons source
  refine ⟨rfl, .inl ⟨rfl, ⟨TokenSource.tokens source, ?_, ?_, ?_⟩, rfl, rfl⟩⟩
  · rw [eq]
    exact List.cons_ne_nil _ _
  · exact (List.append_nil _).symm
  · exact same.trans (List.append_nil _).symm

/-- Programs with the same tokens have the same outcome. -/
theorem parse_congr {source : σ} {source' : τ}
    (same : TokenSource.tokens source' = TokenSource.tokens source) :
    parse source' = parse source :=
  (program_alike (Parser.inStep_ofSource same)).outcome

/-- Single expressions with the same tokens have the same outcome. -/
theorem parseExpression_congr {source : σ} {source' : τ}
    (same : TokenSource.tokens source' = TokenSource.tokens source) :
    parseExpression source' = parseExpression source :=
  (soleExpression_alike (Parser.inStep_ofSource same)).outcome

/-- Scanning a text to its end and then reading the tokens has the outcome of reading the text while
it is scanned. -/
theorem parse_ofTokens_of_tokenize {source file : String} {tokens : List Token}
    (h : tokenize source file = .ok tokens) :
    parse (TokenStream.ofTokens tokens) = parse (Scanner.ofSource source file) ∧
      parseExpression (TokenStream.ofTokens tokens) =
        parseExpression (Scanner.ofSource source file) := by
  obtain rfl := tokens_of_tokenize h
  have same := TokenStream.tokens_ofTokens_tokens (Scanner.ofSource source file)
  exact ⟨parse_congr same, parseExpression_congr same⟩

/-- A bracket that is never closed is reported alike, at the end of the input. -/
theorem parse_ofTokens_of_tokenize_unclosed :
    ∃ tokens, tokenize "-2 * (3" "sum" = .ok tokens ∧
      (parse (TokenStream.ofTokens tokens) = parse (Scanner.ofSource "-2 * (3" "sum") ∧
        parseExpression (TokenStream.ofTokens tokens) =
          parseExpression (Scanner.ofSource "-2 * (3" "sum")) ∧
      (parse (TokenStream.ofTokens tokens)).result =
        .error ⟨.expectedToken ")" "EOF", ⟨7, "sum"⟩⟩ := by
  have scanned : tokenize "-2 * (3" "sum" =
      .ok (TokenSource.tokens (Scanner.ofSource "-2 * (3" "sum")) := by rfl
  have same := parse_ofTokens_of_tokenize scanned
  refine ⟨_, scanned, same, ?_⟩
  rw [same.1]
  decide +kernel

end ExprCheck
