import ExprCheck.Proofs.Grammar.Prefix
import ExprCheck.Proofs.Parser.Blame
import ExprCheck.Proofs.Parser.Seam
import ExprCheck.Proofs.Token.Tiling

/-!
# Characters that start no token

The parser meets an unknown character as a token of its own, for which no rule has a use. It never
passes it, and wherever a rule meets one its report is that of scanning the source beforehand.

* `Rules.Rejects.eq_of_unknown`: the one report that the rules of the language have for it.
* `parse_rejects`: the token that a failure is at, what stands before it and how it is reported.
* `parse_meets_unknown`: a source with an unknown character is never read, and what is reported is
  that character or stands before it.
* `parseExpression_meets_unknown`: the same for single expressions, but for an unknown character
  behind a whole expression. It is no rule that meets this one, and it is reported as a token behind
  the end, as `parseExpression_unknownBehind` shows.
-/

namespace ExprCheck

open Grammar ParserM

/-! ### The report of an unknown token -/

/-- Wherever the parser meets it, an unknown token is reported as one. -/
theorem Rules.Rejects.eq_of_unknown {token : Token} {diagnostic : Diagnostic}
    (h : Rules.standard.Rejects token diagnostic) (isUnknown : token.kind = .unknown) :
    diagnostic = token.unrecognised := by
  cases h with
  | unexpected => rw [Token.unexpected, if_pos isUnknown, Token.unrecognised]
  | insteadOf => rw [Token.insteadOf, if_pos isUnknown, Token.unrecognised]
  | misplaced found =>
    rw [isUnknown] at found
    cases found
  | tooDeep found =>
    rw [isUnknown] at found
    rcases found with found | found | found <;> cases found

/-! ### Where the parser stops -/

section Source

variable {σ : Type} [TokenSource σ] {source : σ}

/-- A program without unknown tokens stands before the token that a failure is at, and the rules
reject this token. -/
theorem parse_rejects {diagnostic : Diagnostic}
    (failed : (parse source).result = .error diagnostic) :
    ∃ front token later, TokenSource.tokens source = front ++ token :: later ∧
      (∀ earlier ∈ front, earlier.kind ≠ .unknown) ∧
      Rules.standard.Rejects token diagnostic := by
  have standard : (Parser.ofSource Rules.standard source).rules = _ := rfl
  have run := (program_refuses standard).and (program_explains _ (Nat.zero_le _))
  obtain ⟨after, ⟨-, front, eq, more, derives⟩, -, rejects⟩ := Parser.failed_of_error run failed
  obtain ⟨later, eq'⟩ := after.tokens_eq_cons
  refine ⟨front, after.current, later, eq' ▸ eq, fun token mem => ?_, rejects⟩
  exact derives.ne_unknown _ (List.mem_append_left _ (List.mem_map_of_mem mem))

/-- What a phrase covers up to the end of the input has no unknown token. -/
theorem not_unknown_of_covers {symbol : Symbol} {tokens : List Token} {last : Token}
    (isEnd : last.kind = .eof) (h : Grammar.Covers symbol tokens [last]) :
    ∀ token ∈ tokens, token.kind ≠ .unknown := by
  obtain ⟨taken, rfl, derives⟩ := h
  have notUnknown : last.kind ≠ .unknown := by
    rw [isEnd]
    decide
  exact List.forall_mem_append.2
    ⟨fun token mem => derives.ne_unknown _ (List.mem_map_of_mem mem),
      List.forall_mem_singleton.2 notUnknown⟩

/-- Nothing with an unknown token is read. -/
theorem not_unknown_of_parse {expr : Expr} (ok : (parse source).result = .ok expr) :
    ∀ token ∈ TokenSource.tokens source, token.kind ≠ .unknown := by
  obtain ⟨items, last, isEnd, row, -⟩ := parse_sound ok
  exact not_unknown_of_covers isEnd (Reads.row_covered row fun _ _ _ reads => reads.covered)

theorem not_unknown_of_parseExpression {expr : Expr}
    (ok : (parseExpression source).result = .ok expr) :
    ∀ token ∈ TokenSource.tokens source, token.kind ≠ .unknown := by
  obtain ⟨last, isEnd, reads⟩ := parseExpression_sound ok
  exact not_unknown_of_covers isEnd reads.covered

/-- Reading a single expression fails where a program would, or behind the expression. -/
theorem parseExpression_rejects {diagnostic : Diagnostic}
    (failed : (parseExpression source).result = .error diagnostic) :
    ∃ front token later, TokenSource.tokens source = front ++ token :: later ∧
      (∀ earlier ∈ front, earlier.kind ≠ .unknown) ∧
      (Rules.standard.Rejects token diagnostic ∨ diagnostic = token.trailing ∧
        ∃ expr after, expression .lowest (Parser.ofSource Rules.standard source) = .ok expr after ∧
          after.tokens = token :: later) := by
  cases ran : expression .lowest (Parser.ofSource Rules.standard source) with
  | ok expr after =>
    obtain ⟨front, eq, derives⟩ := (reads_of_expression rfl ran).1.covered
    obtain ⟨later, eq'⟩ := after.tokens_eq_cons
    refine ⟨front, after.current, later, eq' ▸ eq, fun token mem => ?_, .inr ⟨?_, expr, after, rfl,
      eq'⟩⟩
    · exact derives.ne_unknown _ (List.mem_map_of_mem mem)
    · rw [parseExpression_of_expression ran] at failed
      split at failed
      · cases failed
      · exact (Except.error.inj failed).symm
  | error diagnostic' after =>
    obtain rfl := Except.error.inj ((parseExpression_of_refused ran).symm.trans failed)
    have refuses := expressionWithin_refusing levels 0 (Nat.le_refl _) .lowest
      (Parser.ofSource Rules.standard source) rfl (Nat.zero_le _)
    rw [Refuses, Leads, show expressionWithin levels .lowest _ = _ from ran] at refuses
    obtain ⟨-, front, eq, more, derives⟩ := refuses
    obtain ⟨later, eq'⟩ := after.tokens_eq_cons
    have rejects := rejects_of_expression (Nat.zero_le _) ran
    refine ⟨front, after.current, later, eq' ▸ eq, fun token mem => ?_, .inl rejects⟩
    exact derives.ne_unknown _ (List.mem_append_left _ (List.mem_map_of_mem mem))

end Source

/-- Behind tokens that are known, an unknown token is the next one or starts after it. -/
theorem eq_or_before_of_known {tokens front later : List Token} {token unknown : Token}
    (ordered : tokens.Pairwise fun token token' => token.start.bytes < token'.start.bytes)
    (eq : tokens = front ++ token :: later)
    (before : ∀ earlier ∈ front, earlier.kind ≠ .unknown) (mem : unknown ∈ tokens)
    (isUnknown : unknown.kind = .unknown) :
    unknown = token ∨ token.start.bytes < unknown.start.bytes := by
  rw [eq] at mem ordered
  rcases List.mem_append.1 mem with inFront | here
  · exact absurd isUnknown (before unknown inFront)
  · rcases List.mem_cons.1 here with same | behind
    · exact .inl same
    · exact .inr ((List.pairwise_cons.1 (List.pairwise_append.1 ordered).2.1).1 unknown behind)

/-- If no unknown token stands before the token that the rules reject, then an unknown token is this
one or stands behind it. -/
theorem eq_or_before_of_rejects {tokens front later : List Token} {token unknown : Token}
    {diagnostic : Diagnostic}
    (ordered : tokens.Pairwise fun token token' => token.start.bytes < token'.start.bytes)
    (eq : tokens = front ++ token :: later)
    (before : ∀ earlier ∈ front, earlier.kind ≠ .unknown)
    (rejects : Rules.standard.Rejects token diagnostic) (mem : unknown ∈ tokens)
    (isUnknown : unknown.kind = .unknown) :
    diagnostic = unknown.unrecognised ∨ diagnostic.position.bytes < unknown.start.bytes := by
  rcases eq_or_before_of_known ordered eq before mem isUnknown with rfl | starts
  · exact .inl (rejects.eq_of_unknown isUnknown)
  · rw [rejects.position]
    exact .inr starts

/-- **Unknown characters are found while reading as well.** If scanning a source beforehand fails
with a report, then reading the source while it is scanned fails as well. Its report is the same or
stands before it. -/
theorem parse_meets_unknown {source file : String} (short : source.utf8ByteSize < UInt32.size)
    {unknown : Diagnostic} (scanned : tokenize source file = .error unknown) :
    ∃ diagnostic, (parse (Scanner.ofSource source file)).result = .error diagnostic ∧
      (diagnostic = unknown ∨ diagnostic.position.bytes < unknown.position.bytes) := by
  obtain ⟨token, mem, isUnknown, rfl⟩ := tokenize_error scanned
  cases result : (parse (Scanner.ofSource source file)).result with
  | ok expr => exact absurd isUnknown (not_unknown_of_parse result token mem)
  | error diagnostic =>
    obtain ⟨front, rejected, later, eq, before, rejects⟩ := parse_rejects result
    have ordered := Scanner.starts_ordered file short
    exact ⟨diagnostic, rfl, eq_or_before_of_rejects ordered eq before rejects mem isUnknown⟩

/-- An unknown character where a bracket should be closed. -/
theorem parse_meets_unknown_unclosed :
    "if (1 é) \x7b\x7d".utf8ByteSize < UInt32.size ∧
      tokenize "if (1 é) \x7b\x7d" "sum" = .error ⟨.unrecognisedToken "é", ⟨6, "sum"⟩⟩ ∧
      ∃ diagnostic,
        (parse (Scanner.ofSource "if (1 é) \x7b\x7d" "sum")).result = .error diagnostic ∧
          (diagnostic = ⟨.unrecognisedToken "é", ⟨6, "sum"⟩⟩ ∨ diagnostic.position.bytes < 6) := by
  have short : "if (1 é) \x7b\x7d".utf8ByteSize < UInt32.size := by decide
  have scanned : tokenize "if (1 é) \x7b\x7d" "sum" =
      .error ⟨.unrecognisedToken "é", ⟨6, "sum"⟩⟩ := by decide +kernel
  exact ⟨short, scanned, parse_meets_unknown short scanned⟩

/-! ### Behind a single expression -/

/-- **Behind a single expression an unknown character is reported as any other token.** If scanning
a source beforehand fails with a report, then reading a single expression from it fails as well. If
the tokens before the unknown character make up the expression, the report is that the input should
have ended there. If they do not, the report is that of scanning or stands before it. -/
theorem parseExpression_meets_unknown {source file : String}
    (short : source.utf8ByteSize < UInt32.size) {unknown : Diagnostic}
    (scanned : tokenize source file = .error unknown) :
    ∃ diagnostic, (parseExpression (Scanner.ofSource source file)).result = .error diagnostic ∧
      if (parseExpression (TokenStream.ofTokens
          (TokenSource.known (Scanner.ofSource source file)))).result.isOk then
        ∃ value, unknown.fault = .unrecognisedToken value ∧
          diagnostic =
            ⟨.unexpectedTokenDetailed value "expected end of input", unknown.position⟩
      else diagnostic = unknown ∨ diagnostic.position.bytes < unknown.position.bytes := by
  obtain ⟨token, later, eq, isUnknown, rfl⟩ := tokenize_error_known scanned
  have mem : token ∈ TokenSource.tokens (Scanner.ofSource source file) :=
    eq ▸ List.mem_append_right _ List.mem_cons_self
  have whole := expression_before_iff eq (TokenSource.ne_eof_of_tokens eq)
    (.of_kind isUnknown (by decide) later) (.of_kind isUnknown (by decide) later)
  split
  · next isOk =>
    obtain ⟨expr, after, ran, there⟩ := whole.1 isOk
    have current := after.current_of_tokens there
    have notEnd : after.current.kind ≠ .eof := by
      rw [current, isUnknown]
      decide
    refine ⟨token.trailing, ?_, token.value, rfl, rfl⟩
    rw [parseExpression_of_expression ran, if_neg notEnd, current]
  · next notOk =>
    cases result : (parseExpression (Scanner.ofSource source file)).result with
    | ok expr => exact absurd isUnknown (not_unknown_of_parseExpression result token mem)
    | error diagnostic =>
      refine ⟨diagnostic, rfl, ?_⟩
      obtain ⟨front, rejected, more, eq', before, refused⟩ := parseExpression_rejects result
      have ordered := Scanner.starts_ordered file short
      rcases refused with rejects | ⟨rfl, expr, after, ran, there⟩
      · exact eq_or_before_of_rejects ordered eq' before rejects mem isUnknown
      · -- An expression ends here, so this is not yet the unknown token.
        rcases eq_or_before_of_known ordered eq' before mem isUnknown with rfl | starts
        · rw [TokenSource.known_eq eq' before isUnknown] at eq
          obtain rfl := (List.cons.inj (List.append_cancel_left (eq'.symm.trans eq))).2
          exact absurd (whole.2 ⟨expr, after, ran, there⟩) notOk
        · exact .inr starts

/-- An unknown character in the place of an operand. -/
theorem parseExpression_meets_unknown_operand :
    "1 + é".utf8ByteSize < UInt32.size ∧
      tokenize "1 + é" "sum" = .error ⟨.unrecognisedToken "é", ⟨4, "sum"⟩⟩ ∧
      (parseExpression (TokenStream.ofTokens
        (TokenSource.known (Scanner.ofSource "1 + é" "sum")))).result.isOk = false ∧
      ∃ diagnostic, (parseExpression (Scanner.ofSource "1 + é" "sum")).result = .error diagnostic ∧
        (diagnostic = ⟨.unrecognisedToken "é", ⟨4, "sum"⟩⟩ ∨ diagnostic.position.bytes < 4) := by
  have short : "1 + é".utf8ByteSize < UInt32.size := by decide
  have scanned : tokenize "1 + é" "sum" = .error ⟨.unrecognisedToken "é", ⟨4, "sum"⟩⟩ := by
    decide +kernel
  have notOk : (parseExpression (TokenStream.ofTokens
      (TokenSource.known (Scanner.ofSource "1 + é" "sum")))).result.isOk = false := by
    decide +kernel
  have meets := parseExpression_meets_unknown short scanned
  rw [notOk] at meets
  exact ⟨short, scanned, notOk, meets⟩

/-- The character behind `1` is no token, but the report is that of a token too many. It is not the
report of scanning, and it does not stand before it. -/
theorem parseExpression_unknownBehind :
    "1 #".utf8ByteSize < UInt32.size ∧
      tokenize "1 #" "sum" = .error ⟨.unrecognisedToken "#", ⟨2, "sum"⟩⟩ ∧
      (parseExpression (Scanner.ofSource "1 #" "sum")).result =
        .error ⟨.unexpectedTokenDetailed "#" "expected end of input", ⟨2, "sum"⟩⟩ ∧
      ¬ ∃ diagnostic, (parseExpression (Scanner.ofSource "1 #" "sum")).result = .error diagnostic ∧
        (diagnostic = ⟨.unrecognisedToken "#", ⟨2, "sum"⟩⟩ ∨ diagnostic.position.bytes < 2) := by
  have failed : (parseExpression (Scanner.ofSource "1 #" "sum")).result =
      .error ⟨.unexpectedTokenDetailed "#" "expected end of input", ⟨2, "sum"⟩⟩ := by
    decide +kernel
  refine ⟨by decide, by decide +kernel, failed, ?_⟩
  rintro ⟨diagnostic, failed', isUnknown⟩
  obtain rfl := Except.error.inj (failed.symm.trans failed')
  revert isUnknown
  decide

end ExprCheck
