import ExprCheck.Proofs.Parser.Agreement
import ExprCheck.Proofs.Parser.Progress

/-!
# Nothing behind the end of the input matters

The first token that ends the input is never passed, so what stands behind it is not read:

* `Recorded`: a source that records each token that it is made to pass. It is read like the source
  that it records (`Recorded.tokens_eq`), and every call that advances it leaves an entry.
* `Recorded.ReadsToEnd`: a run over a recorded source comes to what it comes to over the source
  itself, and it passes tokens before the end of the input alone, each of them once.
* `parse_reads_to_end`: this holds of programs and of single expressions.
-/

namespace ExprCheck

/-- A source that records each token that it is made to pass, the latest first. -/
structure Recorded (σ : Type) where
  source : σ
  passed : List Token

open ParserM

namespace Recorded

variable {σ : Type} [TokenSource σ]

/-- A source that nothing has been passed of. -/
def ofSource (source : σ) : Recorded σ :=
  ⟨source, []⟩

instance : TokenSource (Recorded σ) where
  current recorded := TokenSource.current recorded.source
  advance recorded :=
    ⟨TokenSource.advance recorded.source, TokenSource.current recorded.source :: recorded.passed⟩
  remaining recorded := TokenSource.remaining recorded.source
  remaining_advance_le recorded := TokenSource.remaining_advance_le recorded.source
  remaining_advance_lt recorded := TokenSource.remaining_advance_lt recorded.source

/-- The record does not show in the tokens. -/
theorem tokensWithin_eq (limit : Nat) (recorded : Recorded σ) :
    TokenSource.tokensWithin limit recorded = TokenSource.tokensWithin limit recorded.source := by
  induction limit generalizing recorded with
  | zero => rfl
  | succ limit ih =>
    rw [TokenSource.tokensWithin, TokenSource.tokensWithin, ih]
    rfl

theorem tokens_eq (recorded : Recorded σ) :
    TokenSource.tokens recorded = TokenSource.tokens recorded.source :=
  tokensWithin_eq _ recorded

/-- Every token of a way is recorded. -/
theorem passed_of_walk {passed : List Token} {before after : Recorded σ}
    (h : TokenSource.Walk passed before after) :
    after.passed = passed.reverse ++ before.passed := by
  induction h with
  | stay => rfl
  | pass _ ih =>
    rw [ih, List.reverse_cons, List.append_assoc]
    rfl

/-- The parser that a step over a whole source leaves by the standard rules. -/
def run (step : ParserM (Recorded σ) Expr) (source : σ) : Parser (Recorded σ) :=
  left step (Parser.ofSource Rules.standard (ofSource source))

/-- A step over a whole source goes on to the end of the input at most. -/
structure ReadsToEnd (step : ParserM (Recorded σ) Expr) (source : σ) (whole : Logged Expr) :
    Prop where
  /-- The record makes no difference to what the step comes to. -/
  same : (Parser.ofSource Rules.standard (ofSource source)).outcome step = whole
  /-- The end of the input was never the current token when the source was advanced. -/
  notEnd : ∀ token ∈ (run step source).source.passed, token.kind ≠ .eof
  /-- What was passed and what is still to be read are the tokens of the source. -/
  tokens : (run step source).source.passed.reverse ++ (run step source).tokens =
    TokenSource.tokens source
  /-- The source was not advanced more often than it has tokens before the end of the input. -/
  bound : (run step source).source.passed.length ≤
    (TokenStream.body (TokenSource.tokens source)).length

/-- A step that never passes the end of the input. -/
theorem readsToEnd_of_gets {step : ParserM (Recorded σ) Expr} {source : σ} {whole : Logged Expr}
    (gets : Gets False 0 step (Parser.ofSource Rules.standard (ofSource source)))
    (same : (Parser.ofSource Rules.standard (ofSource source)).outcome step = whole) :
    ReadsToEnd step source whole := by
  obtain ⟨passed, -, notEnd, walk⟩ := gets.left.walk
  have record : (run step source).source.passed = passed.reverse :=
    (passed_of_walk walk).trans (List.append_nil _)
  have tokens : TokenSource.tokens source = passed ++ (run step source).tokens :=
    (tokens_eq (ofSource source)).symm.trans (walk.tokens_eq notEnd)
  refine ⟨same, ?_, ?_, ?_⟩
  · intro token mem
    exact notEnd token (List.mem_reverse.1 (record ▸ mem))
  · rw [record, List.reverse_reverse, tokens]
  · rw [record, tokens, TokenStream.body, List.takeWhile_append_of_pos (by simpa using notEnd),
      List.length_append, List.length_reverse]
    exact Nat.le_add_right _ _

end Recorded

/-! ### Whole sources -/

namespace ParserM

variable {σ : Type} [TokenSource σ] {endToo : Prop} {parser : Parser σ}

theorem program_gets (allow : parser.rules.Allow endToo) : Gets endToo 0 program parser := by
  refine .current_bind ?_
  refine (Gets.withRemaining (itemsUntil_gets expression_advances allow _ _)).bind fun _ _ _ => ?_
  exact .write_bind (.current_bind (.pure _))

theorem soleExpression_gets (allow : parser.rules.Allow endToo) :
    Gets endToo 0 soleExpression parser := by
  refine (expression_advances _ parser allow).weaken.bind fun _ _ _ => .current_bind ?_
  split
  · exact .pure _
  · exact .throw rfl

end ParserM

/-- No rule of the language is for the end of the input. -/
theorem Rules.standard_allow : Rules.standard.Allow False := by
  rintro (found | found) <;> cases found

variable {σ : Type} [TokenSource σ]

/-- **Nothing behind the end of the input matters.** Tokens behind the first one that ends the input
change nothing in what is read before them. In every run the source is advanced before the end of
the input alone, once for each token that is passed, so not more often than there are tokens before
the end. -/
theorem parse_reads_to_end (source : σ) :
    (∀ (before later : List Token) (last : Token), (∀ token ∈ before, token.kind ≠ .eof) →
      last.kind = .eof →
        parse (TokenStream.ofTokens (before ++ [last] ++ later)) =
            parse (TokenStream.ofTokens (before ++ [last])) ∧
          parseExpression (TokenStream.ofTokens (before ++ [last] ++ later)) =
            parseExpression (TokenStream.ofTokens (before ++ [last]))) ∧
      Recorded.ReadsToEnd program source (parse source) ∧
      Recorded.ReadsToEnd soleExpression source (parseExpression source) := by
  refine ⟨?_, ?_, ?_⟩
  · intro before later last notEnd isEnd
    have same : TokenSource.tokens (TokenStream.ofTokens (before ++ [last] ++ later)) =
        TokenSource.tokens (TokenStream.ofTokens (before ++ [last])) := by
      rw [List.append_assoc, TokenStream.tokens_ofTokens_of_eof notEnd isEnd,
        List.singleton_append, TokenStream.tokens_ofTokens_of_eof notEnd isEnd]
    exact ⟨parse_congr same, parseExpression_congr same⟩
  · exact Recorded.readsToEnd_of_gets (program_gets Rules.standard_allow)
      (parse_congr (Recorded.tokens_eq _))
  · exact Recorded.readsToEnd_of_gets (soleExpression_gets Rules.standard_allow)
      (parseExpression_congr (Recorded.tokens_eq _))

/-- A difference that ends before its right operand. The token that could be one is behind the end
of the input, where it is not read, and two tokens are passed. -/
theorem parse_reads_to_end_difference :
    let token : TokenKind → Token := fun kind => ⟨kind, kind.display, Span.empty ⟨0, "shell"⟩⟩
    let before := [.integer, .dash].map token
    let stream := TokenStream.ofTokens (before ++ [token .eof])
    (∀ token ∈ before, token.kind ≠ .eof) ∧
      parse (TokenStream.ofTokens (before ++ [token .eof] ++ [token .integer])) = parse stream ∧
      (parse stream).result = .error (token .eof).unexpected ∧
      (∀ token ∈ (Recorded.run program stream).source.passed, token.kind ≠ .eof) ∧
      (Recorded.run program stream).source.passed = before.reverse := by
  intro token before stream
  obtain ⟨behind, within, -⟩ := parse_reads_to_end stream
  have notEnd : ∀ token ∈ before, token.kind ≠ .eof := by decide
  exact ⟨notEnd, (behind before _ _ notEnd rfl).1, by decide +kernel, within.notEnd, rfl⟩

end ExprCheck
