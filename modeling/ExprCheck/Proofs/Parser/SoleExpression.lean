import ExprCheck.Proofs.Parser.Blame
import ExprCheck.Proofs.Parser.Concatenation
import ExprCheck.Proofs.Parser.Refusal

/-!
# Single expressions and programs

Both entry points start by reading an expression, and they differ in what they do behind it: a
single expression has to end there, and a program goes on with its row.

* `readRow_succ`: a program that is not empty is its first expression and the row behind that one.
* `parseExpression_of_front`: a first expression is also read alone, where the source ends behind
  it.
* `itemsUntil_rejects`: a row that fails does so at one of the tokens ahead of it.
* `Compares`: the ways in which the two entry points can come out of one source, and `compares`: one
  of them is the case for every source that is not empty.
* `parseExpression_agrees_with_parse`: the same, of lists of tokens.
-/

namespace ExprCheck

open ParserM

/-! ### Reports behind the end -/

/-- Whether the report is about a token behind the end of a single expression. -/
def Diagnostic.isTrailing (diagnostic : Diagnostic) : Bool :=
  match diagnostic.fault with
  | .unexpectedTokenDetailed .. => true
  | _ => false

@[simp] theorem Token.isTrailing_trailing (token : Token) : token.trailing.isTrailing = true :=
  rfl

/-- No rule reports a token so. -/
theorem Rules.Rejects.isTrailing_eq_false {rules : Rules} {token : Token} {diagnostic : Diagnostic}
    (h : rules.Rejects token diagnostic) : diagnostic.isTrailing = false := by
  cases h with
  | unexpected =>
    unfold Token.unexpected
    split <;> rfl
  | insteadOf =>
    unfold Token.insteadOf
    split <;> rfl
  | misplaced => rfl
  | tooDeep => rfl

/-- A tree is never too deep for the end of the input. -/
theorem Rules.Rejects.ne_eof_of_isTooDeep {token : Token} {diagnostic : Diagnostic}
    (h : Rules.standard.Rejects token diagnostic) (tooDeep : diagnostic.isTooDeep = true) :
    token.kind ≠ .eof := by
  intro isEnd
  cases h with
  | unexpected => simp at tooDeep
  | insteadOf => simp at tooDeep
  | misplaced => simp at tooDeep
  | tooDeep found =>
    rw [isEnd] at found
    rcases found with found | found | found <;> cases found

variable {σ : Type} [TokenSource σ] {source : σ}

/-! ### The first expression -/

/-- A program that is not empty is its first expression and the row behind that one, which has a
round for each of its tokens. -/
theorem readRow_succ (notEmpty : (TokenSource.current source).kind ≠ .eof) :
    ∃ rounds, (TokenSource.tokens source).length ≤ rounds + 2 ∧
      readRow source = ((Parser.ofSource Rules.standard source).outcome
        (expression .lowest >>= fun item => itemsUntil expression .eof rounds >>= fun later =>
          pure (item :: later))).result := by
  let start : Parser σ := Parser.ofSource Rules.standard source
  have notEnd : start.current.kind ≠ .eof := notEmpty
  have shorter := TokenSource.remaining_advance_lt source notEmpty
  obtain ⟨rounds, eq⟩ : ∃ rounds, TokenSource.remaining source = rounds + 1 :=
    ⟨TokenSource.remaining source - 1, by omega⟩
  have size := TokenSource.length_tokens_le source
  rw [eq] at size
  refine ⟨rounds, size, congrArg Logged.result (Parser.outcome_congr ?_)⟩
  have goesOn : ¬ (start.current.kind = .eof ∨ start.current.kind = .eof) :=
    fun ends => notEnd (ends.elim id id)
  rw [← itemsUntil_succ goesOn, ← eq]
  rfl

/-- A tree that is too deep is refused before the end of the input. -/
theorem expression_of_isTooDeep {diagnostic : Diagnostic}
    (failed : (parseExpression source).result = .error diagnostic)
    (tooDeep : diagnostic.isTooDeep = true) :
    ∃ after, expression .lowest (Parser.ofSource Rules.standard source) = .error diagnostic after ∧
      after.current.kind ≠ .eof := by
  cases ran : expression .lowest (Parser.ofSource Rules.standard source) with
  | ok expr after =>
    rw [parseExpression_of_expression ran] at failed
    split at failed
    · cases failed
    · cases failed
      cases tooDeep
  | error diagnostic' after =>
    obtain rfl := Except.error.inj ((parseExpression_of_refused ran).symm.trans failed)
    exact ⟨after, rfl, (rejects_of_expression (Nat.zero_le _) ran).ne_eof_of_isTooDeep tooDeep⟩

/-- What is read with more behind it is not refused as too deep where the source ends instead. -/
theorem not_isTooDeep_of_front {front rest : List Token} {last : Token} (notNil : front ≠ [])
    (eq : TokenSource.tokens source = front ++ rest)
    (alone : TokenSource.tokens (TokenStream.ofTokens front) = front ++ [last])
    {expr : Expr} {after : Parser σ}
    (ran : expression .lowest (Parser.ofSource Rules.standard source) = .ok expr after)
    {diagnostic : Diagnostic}
    (failed : (parseExpression (TokenStream.ofTokens front)).result = .error diagnostic) :
    ¬ diagnostic.isTooDeep = true := by
  intro tooDeep
  obtain ⟨after', ran', notEnd⟩ := expression_of_isTooDeep failed tooDeep
  have inStep : Parser.InStep [last] rest
      (Parser.ofSource Rules.standard (TokenStream.ofTokens front))
      (Parser.ofSource Rules.standard source) :=
    ⟨rfl, .inl ⟨rfl, ⟨front, notNil, alone, eq⟩, rfl, rfl⟩⟩
  have alike := Alike.of_tandem (expressionWithin_tandem levels .lowest _ _ inStep.inTandem)
    fun _ _ => Tree.Matches.eq
  -- The refusal is before the end, and up to there the two readings are the same.
  have ahead : ¬ after'.IsPast [last] := fun isPast =>
    notEnd (Parser.kind_eq_eof_of_length_le_one isPast)
  obtain ⟨_, refused⟩ := alike.error_of_not_isPast ran' ahead
  rw [show expressionWithin levels .lowest _ = _ from ran] at refused
  cases refused

/-- What is read at the beginning of a source is also read where the source ends behind it. -/
theorem parseExpression_of_front {expr : Expr} {after : Parser σ}
    (ran : expression .lowest (Parser.ofSource Rules.standard source) = .ok expr after) :
    ∃ front, TokenSource.tokens source = front ++ after.tokens ∧
      (parseExpression (TokenStream.ofTokens front)).result = .ok expr := by
  obtain ⟨reads, -⟩ := reads_of_expression rfl ran
  have shorter := reads.length_le
  obtain ⟨front, eq, -⟩ := reads.covered
  obtain ⟨later, behind⟩ := after.tokens_eq_cons
  let final := Token.endOfInput (TokenStream.endPosition front)
  have isFinal : final.kind = .eof := rfl
  have alone : TokenSource.tokens (TokenStream.ofTokens front) = front ++ [final] :=
    TokenStream.tokens_ofTokens_of_ne_eof (TokenSource.ne_eof_of_tokens (behind ▸ eq))
  obtain ⟨taken, eq', reads'⟩ := reads.followedBy (.of_kind isFinal (by decide) [])
  obtain rfl := List.append_cancel_right (eq.symm.trans eq')
  refine ⟨front, eq, ?_⟩
  rcases parseExpression_complete isFinal (alone ▸ reads') with ok | ⟨diagnostic, failed, tooDeep⟩
  · exact ok
  · have notNil : front ≠ [] := by
      rintro rfl
      exact absurd (Nat.le_of_eq (congrArg List.length eq)) (Nat.not_le.2 shorter)
    exact absurd tooDeep (not_isTooDeep_of_front notNil eq alone ran failed)

/-! ### The row behind it -/

/-- An empty row takes nothing. -/
theorem Row.eq_of_nil {read : List Token → Expr → List Token → Prop} {tokens rest : List Token}
    (h : Row read tokens [] rest) : tokens = rest := by
  cases h
  rfl

/-- A row up to the end of the source, which fails at one of the tokens ahead of it if it fails. -/
theorem itemsUntil_rejects {parser : Parser σ} {rounds : Nat}
    (standard : parser.rules = Rules.standard) (bounded : parser.depth ≤ maxNestingDepth)
    (enough : parser.tokens.length ≤ rounds + 1) :
    Leads (itemsUntil expression .eof rounds)
      (fun items _ => items = [] → parser.current.kind = .eof)
      (fun diagnostic _ => ∃ between rejected rest, parser.tokens = between ++ rejected :: rest ∧
        Rules.standard.Rejects rejected diagnostic) parser := by
  have reliable : Reliable (σ := σ) expression 0 :=
    expressionWithin_reliable levels 0 (Nat.le_refl _)
  have row : Leads (itemsUntil expression .eof rounds) _ _ parser :=
    itemsUntil_leads reliable parser (Nat.zero_le _) standard enough
  have refuses : Refuses .program (itemsUntil expression .eof rounds) parser :=
    itemsUntil_refuses (expressionWithin_refusing levels 0 (Nat.le_refl _)) reliable parser
      (Nat.zero_le _) standard
  have explains : Explains (itemsUntil expression .eof rounds) parser :=
    itemsUntil_explains (expressionWithin_explaining levels 0 (Nat.le_refl _)) parser
      (Nat.zero_le _)
  refine (row.and (refuses.and (explains bounded))).mono ?_ ?_
  · rintro items after ⟨⟨row, -, ends⟩, -⟩ rfl
    have same : parser.tokens = after.tokens := row.eq_of_nil
    obtain ⟨later, eq⟩ := after.tokens_eq_cons
    rw [parser.current_of_tokens (same.trans eq)]
    exact ends.elim id id
  · rintro diagnostic after ⟨-, ⟨-, between, eq, -⟩, -, rejects⟩
    obtain ⟨rest, eq'⟩ := after.tokens_eq_cons
    exact ⟨between, after.current, rest, eq' ▸ eq, standard ▸ rejects⟩

/-! ### Both entry points -/

/-- Behind a first expression, which is the tokens in front, a program has another one or fails. -/
def GoesOn (source : σ) (front : List Token) (first : Expr) : Prop :=
  (∃ next others span, (parse source).result = .ok (.block () (first :: next :: others) span)) ∨
    ∃ between rejected rest diagnostic,
      TokenSource.tokens source = front ++ between ++ rejected :: rest ∧
        (parse source).result = .error diagnostic ∧ Rules.standard.Rejects rejected diagnostic

/-- How a single expression and a program come out of the same source. -/
inductive Compares (source : σ) : Prop where
  /-- The expression is the whole program. -/
  | whole {expr span} :
      (parseExpression source).result = .ok expr →
      (parse source).result = .ok (.block () [expr] span) → Compares source
  /-- There is no first expression. -/
  | refused {diagnostic} :
      diagnostic.isTrailing = false → (parseExpression source).result = .error diagnostic →
      (parse source).result = .error diagnostic → Compares source
  /-- Something follows the first expression. -/
  | followed {front token later first} :
      TokenSource.tokens source = front ++ token :: later → token.kind ≠ .eof →
      (parseExpression source).result = .error token.trailing →
      (parseExpression (TokenStream.ofTokens front)).result = .ok first →
      GoesOn source front first → Compares source

/-- Where no first expression can be read, neither can a program. -/
theorem compares_of_error (notEmpty : (TokenSource.current source).kind ≠ .eof)
    {diagnostic : Diagnostic} {after : Parser σ}
    (ran : expression .lowest (Parser.ofSource Rules.standard source) = .error diagnostic after) :
    Compares source := by
  have notTrailing := (rejects_of_expression (Nat.zero_le _) ran).isTrailing_eq_false
  refine .refused notTrailing (parseExpression_of_refused ran) ?_
  obtain ⟨rounds, -, row⟩ := readRow_succ notEmpty
  exact parse_eq_error_iff.2 (row.trans (Parser.result_of_error (bind_of_error ran)))

/-- Behind a first expression the row of a program is what it is from there. -/
theorem readRow_of_ok (notEmpty : (TokenSource.current source).kind ≠ .eof) {expr : Expr}
    {after : Parser σ}
    (ran : expression .lowest (Parser.ofSource Rules.standard source) = .ok expr after) :
    ∃ rounds, after.rules = Rules.standard ∧ after.depth = 0 ∧ after.tokens.length ≤ rounds + 1 ∧
      readRow source =
        (after.outcome (itemsUntil expression .eof rounds)).result.map (expr :: ·) := by
  obtain ⟨reads, standard⟩ := reads_of_expression rfl ran
  have shorter : after.tokens.length + 1 ≤ (TokenSource.tokens source).length := reads.length_le
  obtain ⟨rounds, enough, row⟩ := readRow_succ notEmpty
  refine ⟨rounds, standard, (KeepsDepth.expression .lowest).of_ok ran, by omega, ?_⟩
  rw [row, ← Parser.result_finish, Parser.outcome, bind_of_ok ran]
  rfl

/-- On a source that is not empty both entry points fail alike, unless an expression can be read.
Then it is the whole program, or the one reports what follows it and the other goes on there. -/
theorem compares (notEmpty : (TokenSource.current source).kind ≠ .eof) : Compares source := by
  cases ran : expression .lowest (Parser.ofSource Rules.standard source) with
  | error diagnostic after => exact compares_of_error notEmpty ran
  | ok expr after =>
    obtain ⟨rounds, standard, level, enough, row⟩ := readRow_of_ok notEmpty ran
    have sole := parseExpression_of_expression ran
    by_cases isEnd : after.current.kind = .eof
    · rw [if_pos isEnd] at sole
      rw [Parser.result_of_ok (itemsUntil_of_ends (.inl isEnd) rounds)] at row
      obtain ⟨span, ok⟩ := parse_of_readRow row
      exact .whole sole ok
    · rw [if_neg isEnd] at sole
      obtain ⟨front, eq, alone⟩ := parseExpression_of_front ran
      obtain ⟨later, behind⟩ := after.tokens_eq_cons
      refine .followed (behind ▸ eq) isEnd sole alone ?_
      have leads := itemsUntil_rejects standard (level ▸ Nat.zero_le _) enough
      cases result : (after.outcome (itemsUntil expression .eof rounds)).result with
      | ok items =>
        rw [result] at row
        obtain ⟨span, ok⟩ := parse_of_readRow row
        obtain ⟨_, nonempty⟩ := Parser.done_of_ok leads result
        cases items with
        | nil => exact absurd (nonempty rfl) isEnd
        | cons next others => exact .inl ⟨next, others, span, ok⟩
      | error diagnostic =>
        rw [result] at row
        obtain ⟨_, between, rejected, rest, eq', rejects⟩ := Parser.failed_of_error leads result
        refine .inr ⟨between, rejected, rest, diagnostic, ?_, parse_eq_error_iff.2 row, rejects⟩
        rw [eq, eq', List.append_assoc]

/-! ### Lists of tokens -/

variable {tokens : List Token}

/-- A list that has a token before its end starts with one. -/
theorem current_ofTokens_ne_eof (noInner : ∀ token ∈ tokens.dropLast, token.kind ≠ .eof)
    (notEmpty : ∃ token ∈ tokens, token.kind ≠ .eof) :
    (TokenSource.current (TokenStream.ofTokens tokens)).kind ≠ .eof := by
  obtain ⟨token, mem, notEnd⟩ := notEmpty
  obtain ⟨last, isEnd, eq⟩ := TokenStream.tokens_ofTokens noInner
  cases tokens with
  | nil => exact absurd mem List.not_mem_nil
  | cons first later =>
    have starts : first.kind ≠ .eof := by
      cases later with
      | nil => exact List.mem_singleton.1 mem ▸ notEnd
      | cons next later => exact noInner first (by simp)
    rw [TokenStream.body, List.takeWhile_cons_of_pos (by simpa using starts)] at eq
    rwa [TokenSource.current_of_tokens eq]

/-- What stands before the end of the stream over a list stands there in the list. -/
theorem eq_of_tokens_ofTokens (noInner : ∀ token ∈ tokens.dropLast, token.kind ≠ .eof)
    {front later : List Token} {token : Token} (notEnd : token.kind ≠ .eof)
    (eq : TokenSource.tokens (TokenStream.ofTokens tokens) = front ++ token :: later) :
    ∃ later', tokens = front ++ token :: later' := by
  rw [TokenStream.tokens_ofTokens_eq_closed noInner, TokenStream.closed] at eq
  split at eq
  · exact ⟨later, eq⟩
  · rcases List.eq_nil_or_concat' later with rfl | ⟨later, last, rfl⟩
    · obtain ⟨-, same⟩ := List.append_inj' eq rfl
      exact absurd rfl ((List.cons.inj same).1 ▸ notEnd)
    · rw [← List.cons_append, ← List.append_assoc] at eq
      exact ⟨later, (List.append_inj' eq rfl).1⟩

/-- **Single expressions and programs agree.** If a list of tokens has one before the end of the
input, then it is a single expression exactly if it is a program of this expression alone. What
keeps it from being a single expression keeps it from being a program, but for a token behind the
end of the expression. Then the tokens before this one are a single expression, and the program has
more expressions than that or fails at this token or behind it. -/
theorem parseExpression_agrees_with_parse
    (noInner : ∀ token ∈ tokens.dropLast, token.kind ≠ .eof)
    (notEmpty : ∃ token ∈ tokens, token.kind ≠ .eof) :
    (∀ expr, (parseExpression (TokenStream.ofTokens tokens)).result = .ok expr ↔
      ∃ span, (parse (TokenStream.ofTokens tokens)).result = .ok (.block () [expr] span)) ∧
    ∀ diagnostic, (parseExpression (TokenStream.ofTokens tokens)).result = .error diagnostic →
      if diagnostic.isTrailing then
        ∃ front token later first, tokens = front ++ token :: later ∧ token.kind ≠ .eof ∧
          diagnostic = token.trailing ∧
          (parseExpression (TokenStream.ofTokens front)).result = .ok first ∧
          GoesOn (TokenStream.ofTokens tokens) front first
      else (parse (TokenStream.ofTokens tokens)).result = .error diagnostic := by
  cases compares (current_ofTokens_ne_eof noInner notEmpty) with
  | @whole expr span sole program =>
    rw [sole, program]
    refine ⟨fun expr' => ⟨?_, ?_⟩, fun diagnostic failed => by cases failed⟩
    · intro ok
      cases ok
      exact ⟨span, rfl⟩
    · rintro ⟨span', ok⟩
      cases ok
      rfl
  | @refused diagnostic notTrailing sole program =>
    rw [sole, program]
    refine ⟨fun expr => ⟨fun ok => (by cases ok), ?_⟩, ?_⟩
    · rintro ⟨span, ok⟩
      cases ok
    · rintro diagnostic' failed
      cases failed
      rw [if_neg (by rw [notTrailing]; decide)]
  | @followed front token later first eq notEnd sole alone goesOn =>
    rw [sole]
    refine ⟨fun expr => ⟨fun ok => (by cases ok), ?_⟩, ?_⟩
    · rintro ⟨span, ok⟩
      rcases goesOn with ⟨next, others, span', program⟩ | ⟨_, _, _, diagnostic, -, program, -⟩
      · rw [program] at ok
        cases ok
      · rw [program] at ok
        cases ok
    · rintro diagnostic failed
      cases failed
      obtain ⟨later', eq'⟩ := eq_of_tokens_ofTokens noInner notEnd eq
      rw [if_pos token.isTrailing_trailing]
      exact ⟨front, token, later', first, eq', notEnd, rfl, alone, goesOn⟩

/-- Two expressions, of which the first is a difference. -/
theorem parseExpression_agrees_with_parse_two :
    let token : TokenKind → Token := fun kind => ⟨kind, kind.display, Span.empty ⟨0, "shell"⟩⟩
    let tokens := [.integer, .dash, .integer, .integer].map token
    (∀ token ∈ tokens.dropLast, token.kind ≠ .eof) ∧ (∃ token ∈ tokens, token.kind ≠ .eof) ∧
      (parseExpression (TokenStream.ofTokens tokens)).result =
        .error (token .integer).trailing ∧
      ∃ front next later first, tokens = front ++ next :: later ∧
        (parseExpression (TokenStream.ofTokens front)).result = .ok first ∧
        GoesOn (TokenStream.ofTokens tokens) front first := by
  intro token tokens
  have noInner : ∀ token ∈ tokens.dropLast, token.kind ≠ .eof := by decide
  have notEmpty : ∃ token ∈ tokens, token.kind ≠ .eof := by decide
  have failed : (parseExpression (TokenStream.ofTokens tokens)).result =
      .error (token .integer).trailing := by decide +kernel
  have agrees := (parseExpression_agrees_with_parse noInner notEmpty).2 _ failed
  rw [if_pos (token .integer).isTrailing_trailing] at agrees
  obtain ⟨front, next, later, first, eq, -, -, alone, goesOn⟩ := agrees
  exact ⟨noInner, notEmpty, failed, front, next, later, first, eq, alone, goesOn⟩

/-- The end of the input alone is an empty program, but no expression. So the token before the end
cannot be left out of the agreement. -/
theorem parse_endOfInput :
    let tokens : List Token := [⟨.eof, "EOF", Span.empty ⟨0, "shell"⟩⟩]
    (∀ token ∈ tokens.dropLast, token.kind ≠ .eof) ∧ tokens ≠ [] ∧
      (parseExpression (TokenStream.ofTokens tokens)).result =
        .error ⟨.unexpectedToken "EOF", ⟨0, "shell"⟩⟩ ∧
      (parse (TokenStream.ofTokens tokens)).result =
        .ok (.block () [] (Span.empty ⟨0, "shell"⟩)) ∧
      ¬ ∀ diagnostic, (parseExpression (TokenStream.ofTokens tokens)).result = .error diagnostic →
        diagnostic.isTrailing = false →
        (parse (TokenStream.ofTokens tokens)).result = .error diagnostic := by
  intro tokens
  have failed : (parseExpression (TokenStream.ofTokens tokens)).result =
      .error ⟨.unexpectedToken "EOF", ⟨0, "shell"⟩⟩ := by decide +kernel
  have ok : (parse (TokenStream.ofTokens tokens)).result =
      .ok (.block () [] (Span.empty ⟨0, "shell"⟩)) := by decide +kernel
  refine ⟨by decide, by decide, failed, ok, fun same => ?_⟩
  have refused := same _ failed rfl
  rw [ok] at refused
  cases refused

end ExprCheck
