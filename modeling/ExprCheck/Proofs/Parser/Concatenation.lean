import ExprCheck.Proofs.Parser.Agreement
import ExprCheck.Proofs.Parser.Depth
import ExprCheck.Proofs.Parser.Seam

/-!
# Programs one after the other

The expressions of a program are read one by one, and between two of them nothing is left of the
reading but what is in the log, which no rule looks at:

* `Throughout.result_onTop`: the result of a step is the same whatever was logged before it.
* `ParserM.itemsUntil_goesOn`: behind a row up to the end of one source, the row of a longer source
  goes on.
* `readRow`: the expressions of a source, which are those of the block that `parse` makes of them.
* `readRow_append`: those of two lists of tokens, of which the second starts with a token that ends
  every expression.
-/

namespace ExprCheck

open ParserM

variable {σ τ α β : Type} [TokenSource σ] [TokenSource τ]

/-! ### Outcomes without the log -/

namespace Parser

omit [TokenSource σ] in
theorem outcome_congr {step step' : ParserM σ α} {parser other : Parser σ}
    (same : step parser = step' other) : parser.outcome step = other.outcome step' := by
  rw [outcome, outcome, same]

omit [TokenSource σ] in
/-- To finish a value changes the result by that. -/
theorem result_finish (step : ParserM σ β) (finish : β → α) (parser : Parser σ) :
    (parser.outcome (step >>= fun value => pure (finish value))).result =
      (parser.outcome step).result.map finish := by
  cases ran : step parser with
  | ok value after =>
    rw [result_of_ok ran]
    exact result_of_ok (bind_of_ok ran)
  | error diagnostic after =>
    rw [result_of_error ran]
    exact result_of_error (bind_of_error ran)

end Parser

namespace ParserM

/-- What was logged before has no part in the result. -/
theorem Throughout.result_onTop {good : Parser σ → Prop} {step : ParserM σ α}
    (h : Throughout good step) (log : List LogEntry) (parser : Parser σ) :
    ((parser.onTop log).outcome step).result = (parser.outcome step).result := by
  rw [Parser.outcome, Parser.outcome, h.framed]
  cases step parser <;> rfl

/-! ### Rows -/

variable {rest' : List Token} {parser : Parser σ} {other : Parser τ}
  {nested : BindingPower → ParserM σ Expr} {nested' : BindingPower → ParserM τ Expr}

/-- At the end of the first source the whole row of the second is still to come. -/
theorem itemsUntil_at_seam {last : Token} (abuts : parser.Abuts [last] rest' other)
    (there : parser.tokens.length ≤ 1) {rounds' : Nat}
    (enough' : other.tokens.length ≤ rounds' + 1) :
    other.tokens = rest' ∧ rest'.length ≤ rounds' + 1 ∧
      itemsUntil nested' .eof rounds' other =
        (itemsUntil nested' .eof rounds' >>= fun later => pure ([] ++ later)) other := by
  obtain ⟨-, there'⟩ := abuts.at_seam there
  exact ⟨there', there' ▸ enough', (congrFun (bind_pure _) other).symm⟩

/-- A row up to the end of the first source is the beginning of a row in the second, which goes on
behind the seam. -/
theorem itemsUntil_goesOn {last : Token} (carry : AllCarry [last] rest' nested nested')
    (abuts : parser.Abuts [last] rest' other) {rounds rounds' : Nat}
    (enough : parser.tokens.length ≤ rounds + 1) (enough' : other.tokens.length ≤ rounds' + 1)
    {items : List Expr} {after : Parser σ}
    (ran : itemsUntil nested .eof rounds parser = .ok items after) :
    ∃ fewer after', after.Abuts [last] rest' after' ∧
      after'.tokens = rest' ∧ rest'.length ≤ fewer + 1 ∧
      itemsUntil nested' .eof rounds' other =
        (itemsUntil nested' .eof fewer >>= fun later => pure (items ++ later)) after' := by
  induction rounds generalizing parser other rounds' items with
  | zero =>
    cases ran
    exact ⟨rounds', other, abuts, itemsUntil_at_seam abuts enough enough'⟩
  | succ rounds ih =>
    by_cases ends : parser.current.kind = .eof ∨ parser.current.kind = .eof
    · have isEnd : parser.current.kind = .eof := ends.elim id id
      have there : parser.tokens.length ≤ 1 := by
        rw [parser.tokens_of_kind_eof isEnd]
        rfl
      rw [itemsUntil_of_ends ends] at ran
      cases ran
      exact ⟨rounds', other, abuts, itemsUntil_at_seam abuts there enough'⟩
    · rw [itemsUntil_succ ends] at ran
      obtain ⟨item, middle, first, second⟩ := of_bind_ok ran
      obtain ⟨later, final, second, done⟩ := of_bind_ok second
      cases done
      obtain ⟨shorter, same, fewer, middle', rfl, first', abuts', enough'⟩ :=
        carry.item abuts enough' first
      obtain ⟨fewer', after', abuts'', there, last', goesOn⟩ := ih abuts' (by omega) enough' second
      refine ⟨fewer', after', abuts'', there, last', ?_⟩
      rw [itemsUntil_succ (by rwa [same]), bind_of_ok first',
        bind_congr_outcome goesOn, bind_assoc]
      simp only [pure_bind, List.cons_append]

end ParserM

/-! ### Programs -/

/-- The expressions of a program, by the standard rules. -/
def readRow (source : σ) : Except Diagnostic (List Expr) :=
  ((Parser.ofSource Rules.standard source).outcome
    (withRemaining (itemsUntil expression .eof))).result

/-- What `parse` gives is the block of these expressions, or what keeps them from being read. -/
theorem parse_readRow (source : σ) :
    (∃ items span, (parse source).result = .ok (.block () items span) ∧
      readRow source = .ok items) ∨
    ∃ diagnostic, (parse source).result = .error diagnostic ∧
      readRow source = .error diagnostic := by
  cases ran : withRemaining (itemsUntil expression .eof)
      (Parser.ofSource Rules.standard source) with
  | ok items after =>
    refine .inl ⟨items, ⟨⟨0, (TokenSource.current source).start.file⟩, after.current.start⟩, ?_,
      Parser.result_of_ok ran⟩
    unfold parse program
    exact Parser.result_of_ok ((bind_current).trans (bind_of_ok ran))
  | error diagnostic after =>
    refine .inr ⟨diagnostic, ?_, Parser.result_of_error ran⟩
    unfold parse program
    exact Parser.result_of_error ((bind_current).trans (bind_of_error ran))

theorem readRow_of_parse {source : σ} {expr : Expr} (ok : (parse source).result = .ok expr) :
    ∃ items span, expr = .block () items span ∧ readRow source = .ok items := by
  rcases parse_readRow source with ⟨items, span, ok', row⟩ | ⟨diagnostic, error, -⟩
  · rw [ok'] at ok
    cases ok
    exact ⟨items, span, rfl, row⟩
  · rw [error] at ok
    cases ok

theorem parse_of_readRow {source : σ} {items : List Expr} (row : readRow source = .ok items) :
    ∃ span, (parse source).result = .ok (.block () items span) := by
  rcases parse_readRow source with ⟨items', span, ok, row'⟩ | ⟨diagnostic, -, refused⟩
  · rw [row'] at row
    cases row
    exact ⟨span, ok⟩
  · rw [refused] at row
    cases row

theorem parse_eq_error_iff {source : σ} {diagnostic : Diagnostic} :
    (parse source).result = .error diagnostic ↔ readRow source = .error diagnostic := by
  rcases parse_readRow source with ⟨items, span, ok, row⟩ | ⟨diagnostic', error, row⟩
  · rw [ok, row]
    constructor <;>
    · intro eq
      cases eq
  · rw [error, row]
    constructor <;>
    · intro eq
      cases eq
      rfl

/-- The row of a source is that of any parser with the same tokens ahead, if it is on the first
level. -/
theorem result_itemsUntil (source : σ) {parser : Parser τ}
    (standard : parser.rules = Rules.standard)
    (level : parser.depth = 0) (tokens : parser.tokens = TokenSource.tokens source) {rounds : Nat}
    (enough : parser.tokens.length ≤ rounds + 1) :
    (parser.outcome (itemsUntil expression .eof rounds)).result = readRow source := by
  let start : Parser σ := Parser.ofSource Rules.standard source
  have shares : parser.Shares [] [] (start.onTop parser.log) := by
    refine ⟨standard.symm, ⟨parser.tokens, ?_, ?_, ?_⟩, level.symm, List.nil_append _⟩
    · exact List.ne_nil_of_length_pos parser.length_tokens_pos
    · exact (List.append_nil _).symm
    · rw [tokens]
      exact (List.append_nil _).symm
  have alike := itemsUntil_alike ⟨standard, .inl shares⟩ .eof enough fun _ =>
    length_tokens_le_remaining (start.onTop parser.log)
  -- The fresh parser has nothing in its log, which no rule looks at.
  have any : Invariant fun _ : Parser σ => True := by
    constructor <;> intros <;> trivial
  have throughout := (Throughout.composes any).itemsUntil (Throughout.expression any) .eof
    (TokenSource.remaining source)
  exact (congrArg Logged.result alike.outcome.symm).trans
    (throughout.result_onTop parser.log start)

/-- Behind one program the row of another is what it is alone. -/
theorem readRow_append {first second : List Token} {items : List Expr}
    (before : ∀ token ∈ first, token.kind ≠ .eof) (before' : ∀ token ∈ second, token.kind ≠ .eof)
    (closes : ∀ token ∈ second.head?, token.kind.Closes)
    (read : readRow (TokenStream.ofTokens first) = .ok items) :
    readRow (TokenStream.ofTokens (first ++ second)) =
      (readRow (TokenStream.ofTokens second)).map (items ++ ·) := by
  cases second with
  | nil =>
    rw [List.append_nil, read, show readRow (TokenStream.ofTokens []) = .ok [] from rfl]
    exact congrArg Except.ok (List.append_nil items).symm
  | cons next more =>
    have both : ∀ token ∈ first ++ next :: more, token.kind ≠ .eof := fun token mem =>
      (List.mem_append.1 mem).elim (before token) (before' token)
    -- Both together end where the second ends, so behind the first there is the second as it is.
    have tokens := TokenStream.tokens_ofTokens_of_ne_eof both
    rw [TokenStream.endPosition_append_cons, List.append_assoc,
      ← TokenStream.tokens_ofTokens_of_ne_eof before'] at tokens
    have stops : Stops (TokenSource.tokens (TokenStream.ofTokens (next :: more))) := by
      rw [TokenStream.tokens_ofTokens_of_ne_eof before']
      exact ⟨next, _, rfl, closes next rfl⟩
    have idles : Idles [Token.endOfInput (TokenStream.endPosition first)] :=
      .of_kind (Token.endOfInput_kind _) (by decide) []
    have abuts := Parser.abuts_ofSource (TokenStream.tokens_ofTokens_of_ne_eof before) tokens
    obtain ⟨after, ran⟩ := Parser.ok_of_outcome read
    obtain ⟨fewer, after', abuts', there, enough, goesOn⟩ := itemsUntil_goesOn
      (expressionWithin_carries idles stops levels) abuts (length_tokens_le_remaining _)
      (length_tokens_le_remaining _) ran
    -- Each expression restores the depth, so the second starts on the level it has alone.
    have keeps : KeepsDepth (σ := TokenStream) (withRemaining (itemsUntil expression .eof)) :=
      KeepsDepth.composes.withRemaining (KeepsDepth.composes.itemsUntil .expression .eof)
    have level : after.depth = 0 := keeps.of_ok ran
    have level' : after'.depth = 0 := Nat.le_zero.1 (level ▸ abuts'.depth)
    rw [← result_itemsUntil _ abuts'.standard' level' there (there ▸ enough),
      ← Parser.result_finish]
    exact congrArg Logged.result (Parser.outcome_congr goesOn)

/-- **Expressions do not depend on those before them.** A program, and behind it another that starts
neither with an operator nor with a branch of a conditional, is read as the expressions of the one
and then those of the other. If the other cannot be read, both together are refused with the same
report. -/
theorem parse_append {first second : List Token} {expr : Expr}
    (before : ∀ token ∈ first ++ second, token.kind ≠ .eof)
    (closes : ∀ next ∈ second.head?, next.kind.Closes)
    (read : (parse (TokenStream.ofTokens first)).result = .ok expr) :
    ∃ items span, expr = .block () items span ∧
      (∀ expr', (parse (TokenStream.ofTokens second)).result = .ok expr' →
        ∃ items' span' whole, expr' = .block () items' span' ∧
          (parse (TokenStream.ofTokens (first ++ second))).result =
            .ok (.block () (items ++ items') whole)) ∧
      ∀ diagnostic, (parse (TokenStream.ofTokens second)).result = .error diagnostic →
        (parse (TokenStream.ofTokens (first ++ second))).result = .error diagnostic := by
  obtain ⟨items, span, rfl, row⟩ := readRow_of_parse read
  have append := readRow_append (fun token mem => before token (List.mem_append_left _ mem))
    (fun token mem => before token (List.mem_append_right _ mem)) closes row
  refine ⟨items, span, rfl, ?_, ?_⟩
  · intro expr' read'
    obtain ⟨items', span', rfl, row'⟩ := readRow_of_parse read'
    rw [row'] at append
    obtain ⟨whole, ok⟩ := parse_of_readRow append
    exact ⟨items', span', whole, rfl, ok⟩
  · intro diagnostic refused
    rw [parse_eq_error_iff.1 refused] at append
    exact parse_eq_error_iff.2 append

/-- A conditional without another branch, and behind it a sign in brackets. -/
theorem parse_append_conditional :
    let token : TokenKind → Token := fun kind => ⟨kind, kind.display, Span.empty ⟨0, "shell"⟩⟩
    let first := [.ifWord, .trueWord, .openCurly, .closeCurly].map token
    let second := [.openParen, .dash, .integer, .closeParen].map token
    (∀ token ∈ first ++ second, token.kind ≠ .eof) ∧
      (∀ next ∈ second.head?, next.kind.Closes) ∧
      ∃ items span items' span' whole,
        (parse (TokenStream.ofTokens first)).result = .ok (.block () items span) ∧
        (parse (TokenStream.ofTokens second)).result = .ok (.block () items' span') ∧
        (parse (TokenStream.ofTokens (first ++ second))).result =
          .ok (.block () (items ++ items') whole) := by
  intro token first second
  have before : ∀ token ∈ first ++ second, token.kind ≠ .eof := by decide
  have closes : ∀ next ∈ second.head?, next.kind.Closes := by decide
  obtain ⟨expr, read⟩ := exists_ok_of_isOk
    (show (parse (TokenStream.ofTokens first)).result.isOk = true by decide +kernel)
  obtain ⟨expr', read'⟩ := exists_ok_of_isOk
    (show (parse (TokenStream.ofTokens second)).result.isOk = true by decide +kernel)
  obtain ⟨items, span, rfl, append, -⟩ := parse_append before closes read
  obtain ⟨items', span', whole, rfl, both⟩ := append expr' read'
  exact ⟨before, closes, items, span, items', span', whole, read, read', both⟩

end ExprCheck
