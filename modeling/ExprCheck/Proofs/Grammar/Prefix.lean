import ExprCheck.Proofs.Grammar.Acceptance
import ExprCheck.Proofs.Parser.Agreement
import ExprCheck.Proofs.Parser.Refusal

/-!
# Syntax errors are found at the first token that fits no program

* `parse_stops`: a failure is reported at a token behind a viable text, and what is behind that
  token has no part in it.
* `parse_of_derives`: tokens whose kinds can be derived are refused for nothing but their depth.
* `parse_error_viable_prefix`: the report of a program that is not too deep is at the first token
  with which no program starts.
-/

namespace ExprCheck

open Grammar ParserM

variable {σ : Type} [TokenSource σ]

/-- A failure is reported at a token behind a viable text. Every source that starts with this text
and this token fails with the same report. -/
theorem parse_stops {source : σ} {diagnostic : Diagnostic}
    (failed : (parse source).result = .error diagnostic) :
    ∃ front token later, TokenSource.tokens source = front ++ token :: later ∧
      diagnostic.position = token.start ∧ Viable .program (front.map Token.kind) ∧
      ∀ (source' : TokenStream) later', TokenSource.tokens source' = front ++ token :: later' →
        (parse source').result = .error diagnostic := by
  have refuses := program_refuses (show (Parser.ofSource Rules.standard source).rules = _ from rfl)
  obtain ⟨after, ran⟩ := Parser.error_of_outcome failed
  unfold Refuses Leads at refuses
  rw [ran] at refuses
  obtain ⟨position, front, tokens, viable⟩ := refuses
  obtain ⟨later, eq⟩ := after.tokens_eq_cons
  have tokens : TokenSource.tokens source = front ++ after.current :: later := by
    rw [← eq]
    exact tokens
  refine ⟨front, after.current, later, tokens, position, viable, ?_⟩
  intro source' later' tokens'
  have inStep : (Parser.ofSource Rules.standard source).InStep later later'
      (Parser.ofSource Rules.standard source') := by
    refine ⟨rfl, .inl ⟨rfl, ⟨front ++ [after.current], ?_, ?_, ?_⟩, rfl, rfl⟩⟩
    · exact List.append_ne_nil_of_right_ne_nil _ (List.cons_ne_nil _ _)
    · rw [List.append_assoc]
      exact tokens
    · rw [List.append_assoc]
      exact tokens'
  have ahead : ¬ after.IsPast later := by
    unfold Parser.IsPast
    rw [eq]
    exact Nat.not_succ_le_self _
  obtain ⟨after', ran'⟩ := (program_alike inStep).error_of_not_isPast ran ahead
  unfold parse Parser.outcome
  rw [ran']

/-- The grammar has no use for the end of the input and none for unknown tokens. -/
theorem Grammar.Derives.not_mem {symbol : Symbol} {kinds : List TokenKind}
    (h : Derives symbol kinds) : ∀ kind ∈ kinds, kind ∉ [TokenKind.eof, .unknown] := by
  induction h with
  | emptyProgram => exact fun _ mem => absurd mem List.not_mem_nil
  | noOperation => exact fun _ mem => absurd mem List.not_mem_nil
  | noContinuation => exact fun _ mem => absurd mem List.not_mem_nil
  | program _ _ ih ih' => exact List.forall_mem_append.2 ⟨ih, ih'⟩
  | expression _ _ ih ih' => exact List.forall_mem_append.2 ⟨ih, ih'⟩
  | @operation kind _ _ mem _ _ ih ih' =>
    refine List.forall_mem_cons.2 ⟨?_, List.forall_mem_append.2 ⟨ih, ih'⟩⟩
    revert mem
    cases kind <;> decide
  | sign isSign _ ih =>
    refine List.forall_mem_cons.2 ⟨?_, ih⟩
    rcases isSign with rfl | rfl <;> decide
  | @literal kind isLiteral =>
    refine List.forall_mem_singleton.2 ?_
    revert isLiteral
    cases kind <;> decide
  | primaryOperand _ ih => exact ih
  | blockPrimary _ ih => exact ih
  | chainPrimary _ ih => exact ih
  | group _ ih =>
    exact List.forall_mem_cons.2 ⟨by decide,
      List.forall_mem_append.2 ⟨ih, List.forall_mem_singleton.2 (by decide)⟩⟩
  | block _ ih =>
    exact List.forall_mem_cons.2 ⟨by decide,
      List.forall_mem_append.2 ⟨ih, List.forall_mem_singleton.2 (by decide)⟩⟩
  | chain _ _ _ ih ih' ih'' =>
    exact List.forall_mem_cons.2 ⟨by decide,
      List.forall_mem_append.2 ⟨ih, List.forall_mem_append.2 ⟨ih', ih''⟩⟩⟩
  | elsifBranch _ _ _ ih ih' ih'' =>
    exact List.forall_mem_cons.2 ⟨by decide,
      List.forall_mem_append.2 ⟨ih, List.forall_mem_append.2 ⟨ih', ih''⟩⟩⟩
  | elseBranch _ ih => exact List.forall_mem_cons.2 ⟨by decide, ih⟩

theorem Grammar.Derives.ne_eof {symbol : Symbol} {kinds : List TokenKind}
    (h : Derives symbol kinds) : ∀ kind ∈ kinds, kind ≠ .eof := fun kind mem isEnd =>
  h.not_mem kind mem (isEnd ▸ List.mem_cons_self)

theorem Grammar.Derives.ne_unknown {symbol : Symbol} {kinds : List TokenKind}
    (h : Derives symbol kinds) : ∀ kind ∈ kinds, kind ≠ .unknown := fun kind mem isUnknown =>
  h.not_mem kind mem (isUnknown ▸ List.mem_cons_of_mem _ List.mem_cons_self)

/-- Tokens whose kinds can be derived are read as a program, unless their tree is too deep. -/
theorem parse_of_derives {tokens : List Token} (h : Derives .program (tokens.map Token.kind)) :
    ∃ expr, (parse (TokenStream.ofTokens tokens)).IsTreeOrTooDeep expr := by
  have noEnd : ∀ token ∈ tokens, token.kind ≠ .eof :=
    fun token mem => h.ne_eof _ (List.mem_map_of_mem mem)
  have noInnerEnd : ∀ token ∈ tokens.dropLast, token.kind ≠ .eof :=
    fun token mem => noEnd token ((List.dropLast_sublist tokens).subset mem)
  obtain ⟨last, isEnd, eq⟩ := TokenStream.tokens_ofTokens noInnerEnd
  rw [TokenStream.body_of_ne_eof noEnd] at eq
  obtain ⟨readsAsRow, -⟩ := h.readable tokens rfl
  obtain ⟨items, row⟩ := readsAsRow [last] (.of_kind isEnd (by decide) [])
  rw [← eq] at row
  exact ⟨_, parse_complete isEnd row⟩

/-- There are tokens of all kinds. -/
theorem exists_tokens (kinds : List TokenKind) :
    ∃ tokens : List Token, tokens.map Token.kind = kinds := by
  refine ⟨kinds.map fun kind => ⟨kind, "", Span.empty ⟨0, ""⟩⟩, ?_⟩
  rw [List.map_map]
  exact List.map_id kinds

/-- **Syntax errors are reported at the first token that fits no program.** If a program without
unknown tokens is refused, and not for its depth, then the report is at one of its tokens. The
tokens before that one are the beginning of a program, and unless it is the end of the input, they
are not together with it. Whatever follows it is refused with the same report. -/
theorem parse_error_viable_prefix {source file : String} {tokens : List Token}
    {diagnostic : Diagnostic} (scanned : tokenize source file = .ok tokens)
    (failed : (parse (Scanner.ofSource source file)).result = .error diagnostic)
    (shallow : diagnostic.isTooDeep = false) :
    ∃ front token rest, tokens = front ++ token :: rest ∧ diagnostic.position = token.start ∧
      Viable .program (front.map Token.kind) ∧
      (token.kind ≠ .eof →
        ¬ Viable .program ((front ++ [token]).map Token.kind) ∧
          ∀ more,
            (parse (TokenStream.ofTokens (front ++ token :: more))).result = .error diagnostic) := by
  obtain rfl := tokens_of_tokenize scanned
  obtain ⟨front, token, later, eq, position, viable, again⟩ := parse_stops failed
  refine ⟨front, token, later, eq, position, viable, fun notEnd => ?_⟩
  have noEnd : ∀ earlier ∈ front ++ [token], earlier.kind ≠ .eof :=
    List.forall_mem_append.2
      ⟨TokenSource.ne_eof_of_tokens eq, List.forall_mem_singleton.2 notEnd⟩
  have refused : ∀ more,
      (parse (TokenStream.ofTokens (front ++ token :: more))).result = .error diagnostic := by
    intro more
    obtain ⟨rest, starts⟩ := TokenStream.tokens_ofTokens_append noEnd more
    rw [List.append_assoc, List.append_assoc] at starts
    exact again _ rest starts
  refine ⟨?_, refused⟩
  rintro ⟨more, derives⟩
  obtain ⟨more, rfl⟩ := exists_tokens more
  rw [← List.map_append, List.append_assoc] at derives
  obtain ⟨expr, ok | ⟨diagnostic', error, tooDeep⟩⟩ := parse_of_derives derives
  · exact absurd ((refused more).symm.trans ok) (by simp)
  · obtain rfl := Except.error.inj ((refused more).symm.trans error)
    rw [shallow] at tooDeep
    cases tooDeep

/-- An operator behind an operator is refused, whatever follows it. -/
theorem parse_error_viable_prefix_operator :
    ∃ tokens diagnostic, tokenize "1 + * 2" "sum" = .ok tokens ∧
      (parse (Scanner.ofSource "1 + * 2" "sum")).result = .error diagnostic ∧
      diagnostic.isTooDeep = false ∧
      ∃ front token rest, tokens = front ++ token :: rest ∧ token.start = ⟨4, "sum"⟩ ∧
        ¬ Viable .program ((front ++ [token]).map Token.kind) := by
  have scanned : tokenize "1 + * 2" "sum" =
      .ok (TokenSource.tokens (Scanner.ofSource "1 + * 2" "sum")) := by rfl
  have failed : (parse (Scanner.ofSource "1 + * 2" "sum")).result =
      .error ⟨.unexpectedToken "*", ⟨4, "sum"⟩⟩ := by decide +kernel
  have there : ∀ token ∈ TokenSource.tokens (Scanner.ofSource "1 + * 2" "sum"),
      token.start = ⟨4, "sum"⟩ → token.kind ≠ .eof := by decide
  obtain ⟨front, token, rest, eq, position, -, refused⟩ :=
    parse_error_viable_prefix scanned failed rfl
  have mem : token ∈ TokenSource.tokens (Scanner.ofSource "1 + * 2" "sum") := by
    rw [eq]
    exact List.mem_append_right _ List.mem_cons_self
  exact ⟨_, _, scanned, failed, rfl, front, token, rest, eq, position.symm,
    (refused (there token mem position.symm)).1⟩

end ExprCheck
