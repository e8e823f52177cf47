import ExprCheck.Proofs.Parser.Seam
import ExprCheck.Typing.Infer

/-!
# Brackets around what is read

A closing bracket ends what stands before it as the end of the input does, and what is read does not
depend on the depth at which it is read, as long as there are levels for it:

* `Expr.typeCheck_block`: the place of a block has no part in its types or in their first fault.
* `parseExpression_enclosed`: a program in curly brackets is read as a block of its expressions.
* `Grouped`: some tokens in so many pairs of round brackets. `Grouped.reads`: the brackets leave no
  trace in the tree.
* `ParserM.SucceedsWithin`: so many levels below a parser are enough for it to read some tokens as
  an expression, whatever stops it behind them. `succeedsWithin_of_reads` counts one level for each
  token, and `SucceedsWithin.group` one for each pair of brackets around them.
* `parseExpression_grouped`: an expression in round brackets, any number of them, is read as the
  same tree, unless the brackets make it too deep.
-/

namespace ExprCheck

/-! ### Curly brackets -/

/-- Blocks of the same expressions have the same type, with the same types inside, or the same
fault. -/
theorem Expr.typeCheck_block (items : List Expr) (span span' : Span) :
    (∃ ty typed, (typeCheck (.block () items span)).result = .ok (.block ty typed span) ∧
      (typeCheck (.block () items span')).result = .ok (.block ty typed span')) ∨
    ∃ diagnostic, (typeCheck (.block () items span)).result = .error diagnostic ∧
      (typeCheck (.block () items span')).result = .error diagnostic := by
  have result : ∀ span, (typeCheck (.block () items span)).result =
      (inferAll items).result.map fun typed => .block (TypedExpr.lastType typed) typed span := by
    intro span
    simp only [typeCheck, infer, Logged.result_bind]
    cases (inferAll items).result <;> rfl
  rw [result, result]
  cases (inferAll items).result with
  | ok typed => exact .inl ⟨_, typed, rfl, rfl⟩
  | error diagnostic => exact .inr ⟨diagnostic, rfl, rfl⟩

/-- Brackets around tokens keep the end of the input out of them. -/
theorem ne_eof_of_enclosed {opening closing : Token} {tokens : List Token}
    (before : ∀ token ∈ tokens, token.kind ≠ .eof) (isOpening : opening.kind ≠ .eof)
    (isClosing : closing.kind ≠ .eof) :
    ∀ token ∈ opening :: (tokens ++ [closing]), token.kind ≠ .eof :=
  List.forall_mem_cons.2 ⟨isOpening, List.forall_mem_append.2 ⟨before,
    List.forall_mem_singleton.2 isClosing⟩⟩

/-- **A block is read like a program.** In curly brackets the tokens of a program are read as one
block, which has the expressions of the program, unless that is refused as too deep. The block and
the program have the same types, up to the place of the whole, or the same fault. -/
theorem parseExpression_enclosed {opening closing : Token} {tokens : List Token} {expr : Expr}
    (before : ∀ token ∈ tokens, token.kind ≠ .eof) (isOpening : opening.kind = .openCurly)
    (isClosing : closing.kind = .closeCurly)
    (ok : (parse (TokenStream.ofTokens tokens)).result = .ok expr) :
    ∃ items span span', expr = .block () items span ∧
      span' = ⟨opening.span.start, closing.span.stop⟩ ∧
      (parseExpression (TokenStream.ofTokens (opening :: (tokens ++ [closing])))).IsTreeOrTooDeep
        (.block () items span') ∧
      ((∃ ty typed, (Expr.typeCheck expr).result = .ok (.block ty typed span) ∧
          (Expr.typeCheck (.block () items span')).result = .ok (.block ty typed span')) ∨
        ∃ diagnostic, (Expr.typeCheck expr).result = .error diagnostic ∧
          (Expr.typeCheck (.block () items span')).result = .error diagnostic) := by
  obtain ⟨items, last, isEnd, row, rfl⟩ := parse_sound ok
  refine ⟨items, _, _, rfl, rfl, ?_, Expr.typeCheck_block items _ _⟩
  let final := Token.endOfInput (TokenStream.endPosition (opening :: (tokens ++ [closing])))
  obtain ⟨taken, eq, row⟩ := row.followedBy (.of_kind isClosing (by decide) [final])
  rw [TokenStream.tokens_ofTokens_of_ne_eof before] at eq
  obtain ⟨rfl, -⟩ := List.append_inj' eq rfl
  refine parseExpression_complete (show final.kind = .eof from rfl) ?_
  rw [TokenStream.tokens_ofTokens_of_ne_eof
    (ne_eof_of_enclosed before (by rw [isOpening]; decide) (by rw [isClosing]; decide)),
    List.cons_append, List.append_assoc]
  exact (Reads.blockOperand (.block isOpening row isClosing)).alone
    (.of_kind (show final.kind = .eof from rfl) (by decide) []) .lowest

/-- A conditional that goes on with nothing, as a program and in a block. -/
theorem parseExpression_enclosed_conditional :
    let token : TokenKind → Token := fun kind => ⟨kind, kind.display, Span.empty ⟨0, "shell"⟩⟩
    let tokens := [.integer, .ifWord, .trueWord, .openCurly, .closeCurly].map token
    let within := token .openCurly :: (tokens ++ [token .closeCurly])
    (∀ token ∈ tokens, token.kind ≠ .eof) ∧ (token .openCurly).kind = .openCurly ∧
      (token .closeCurly).kind = .closeCurly ∧
      ∃ items span, (parse (TokenStream.ofTokens tokens)).result = .ok (.block () items span) ∧
        (parseExpression (TokenStream.ofTokens within)).result =
          .ok (.block () items (Span.empty ⟨0, "shell"⟩)) := by
  intro token tokens within
  have before : ∀ token ∈ tokens, token.kind ≠ .eof := by decide
  obtain ⟨expr, ok⟩ := exists_ok_of_isOk
    (show (parse (TokenStream.ofTokens tokens)).result.isOk = true by decide +kernel)
  have isOpening : (token .openCurly).kind = .openCurly := rfl
  have isClosing : (token .closeCurly).kind = .closeCurly := rfl
  obtain ⟨items, span, _, rfl, rfl, read, -⟩ :=
    parseExpression_enclosed before isOpening isClosing ok
  refine ⟨before, isOpening, isClosing, items, span, ok, ?_⟩
  rcases read with ok | ⟨diagnostic, error, tooDeep⟩
  · exact ok
  · have few : (TokenSource.tokens (TokenStream.ofTokens within)).length ≤ maxNestingDepth + 1 := by
      decide
    rw [parseExpression_shallow few error] at tooDeep
    cases tooDeep

/-! ### Round brackets -/

/-- The tokens of a single expression are read as its tree before whatever stops it. -/
theorem reads_of_parseExpression {tokens : List Token} {expr : Expr}
    (before : ∀ token ∈ tokens, token.kind ≠ .eof)
    (ok : (parseExpression (TokenStream.ofTokens tokens)).result = .ok expr) :
    ∀ rest, Stops rest → Reads (.expression .lowest) (tokens ++ rest) expr rest := by
  intro rest stops
  obtain ⟨last, -, reads⟩ := parseExpression_sound ok
  obtain ⟨taken, eq, reads⟩ := reads.followedBy stops
  rw [TokenStream.tokens_ofTokens_of_ne_eof before] at eq
  obtain ⟨rfl, -⟩ := List.append_inj' eq rfl
  exact reads

/-- Some tokens in so many pairs of round brackets. -/
inductive Grouped (tokens : List Token) : Nat → List Token → Prop where
  | bare : Grouped tokens 0 tokens
  | pair {count inner opening closing} :
      opening.kind = .openParen → Grouped tokens count inner → closing.kind = .closeParen →
      Grouped tokens (count + 1) (opening :: (inner ++ [closing]))

namespace Grouped

variable {tokens whole : List Token} {count : Nat} {expr : Expr}

/-- As many brackets are closed behind the tokens as are opened before them. -/
theorem of_brackets {openings closings : List Token}
    (areOpenings : ∀ opening ∈ openings, opening.kind = .openParen)
    (areClosings : ∀ closing ∈ closings, closing.kind = .closeParen)
    (pairs : openings.length = closings.length) :
    Grouped tokens openings.length (openings ++ tokens ++ closings) := by
  induction openings generalizing closings with
  | nil =>
    obtain rfl := List.eq_nil_of_length_eq_zero pairs.symm
    rw [List.nil_append, List.append_nil]
    exact .bare
  | cons opening openings ih =>
    obtain ⟨isOpening, areOpenings⟩ := List.forall_mem_cons.1 areOpenings
    obtain rfl | ⟨closings, closing, rfl⟩ := List.eq_nil_or_concat' closings
    · cases pairs
    · obtain ⟨areClosings, isClosing⟩ := List.forall_mem_append.1 areClosings
      rw [List.length_cons, List.length_append, List.length_singleton, Nat.succ_inj] at pairs
      have isClosing : closing.kind = .closeParen := isClosing closing List.mem_cons_self
      rw [List.cons_append, List.cons_append, ← List.append_assoc]
      exact .pair isOpening (ih areOpenings areClosings pairs) isClosing

theorem ne_eof (h : Grouped tokens count whole) (before : ∀ token ∈ tokens, token.kind ≠ .eof) :
    ∀ token ∈ whole, token.kind ≠ .eof := by
  induction h with
  | bare => exact before
  | pair isOpening _ isClosing ih =>
    exact ne_eof_of_enclosed ih (by rw [isOpening]; decide) (by rw [isClosing]; decide)

/-- The brackets leave no trace in the tree. -/
theorem reads (h : Grouped tokens count whole)
    (bare : ∀ rest, Stops rest → Reads (.expression .lowest) (tokens ++ rest) expr rest) :
    ∀ rest, Stops rest → Reads (.expression .lowest) (whole ++ rest) expr rest := by
  induction h with
  | bare => exact bare
  | @pair _ _ opening closing isOpening _ isClosing ih =>
    intro rest stops
    have inner := ih (closing :: rest) (.of_kind isClosing (by decide) rest)
    rw [List.cons_append, List.append_assoc]
    exact (Reads.group isOpening inner isClosing).alone stops .lowest

end Grouped

/-! ### Levels for an expression -/

namespace ParserM

variable {σ : Type} [TokenSource σ] {tokens : List Token} {expr : Expr} {room : Nat}

/-- The step ends with the given tree and before the given tokens. -/
def Succeeds (step : ParserM σ Expr) (expr : Expr) (rest : List Token) (parser : Parser σ) : Prop :=
  Leads step (fun value after => value = expr ∧ after.At rest) (fun _ _ => False) parser

theorem Succeeds.ran {step : ParserM σ Expr} {rest : List Token} {parser : Parser σ}
    (h : Succeeds step expr rest parser) :
    ∃ after, step parser = .ok expr after ∧ after.At rest := by
  unfold Succeeds Leads at h
  cases ran : step parser with
  | ok value after =>
    rw [ran] at h
    obtain ⟨rfl, there⟩ := h
    exact ⟨after, rfl, there⟩
  | error diagnostic after =>
    rw [ran] at h
    exact h.elim

/-- After a step that ends with a known tree and before known tokens. -/
theorem Succeeds.next {step : ParserM σ Expr} {rest : List Token} {parser : Parser σ}
    {done : Expr → Parser σ → Prop} (h : Succeeds step expr rest parser)
    (goal : ∀ after : Parser σ, after.At rest → done expr after) :
    Leads step done (fun _ _ => False) parser := by
  refine Leads.mono h ?_ fun _ _ refused => refused
  rintro value after ⟨rfl, there⟩
  exact goal after there

variable (σ) in
/-- A parser with so many levels left reads the tokens as an expression, whatever stops it behind
them. -/
def SucceedsWithin (room : Nat) (tokens : List Token) (expr : Expr) : Prop :=
  ∀ rounds (parser : Parser σ) rest, Stops rest → parser.At (tokens ++ rest) →
    parser.depth + room ≤ maxNestingDepth → levels ≤ rounds + parser.depth →
    Succeeds (expressionWithin rounds .lowest) expr rest parser

/-- Before a token that stops every expression no operator is applied. -/
theorem extend_succeeds_of_stops {nested : BindingPower → ParserM σ Expr} {power : BindingPower}
    {rounds : Nat} {left : Expr} {rest : List Token} (stops : Stops rest) {parser : Parser σ}
    (here : parser.At rest) :
    Succeeds (extend nested power (rounds + 1) left) left rest parser := by
  obtain ⟨next, later, rfl, notFound, -⟩ := stops
  have ruled : parser.rules.infixRule? next.kind = none := by
    rw [here.rules]
    exact notFound
  simp only [Succeeds, extend, leads_bind, leads_rules, leads_current, here.current, ruled,
    leads_pure]
  exact ⟨trivial, here⟩

/-- A pair of brackets takes one more level. -/
theorem SucceedsWithin.group {opening closing : Token} (h : SucceedsWithin σ room tokens expr)
    (isOpening : opening.kind = .openParen) (isClosing : closing.kind = .closeParen) :
    SucceedsWithin σ (room + 1) (opening :: (tokens ++ [closing])) expr := by
  intro rounds parser rest stops here fits enough
  obtain ⟨rounds, rfl⟩ : ∃ fewer, rounds = fewer + 1 :=
    ⟨rounds - 1, by unfold levels at enough; omega⟩
  rw [List.cons_append, List.append_assoc, List.singleton_append] at here
  have isFirst := here.current
  have ruled : parser.rules.prefixRule? opening.kind = some .group := by
    rw [here.rules, isOpening]
    rfl
  let deeper : Parser σ :=
    { parser with
      depth := parser.depth + 1
      log := .operand opening.kind opening.start.offset :: parser.log }
  have behind : deeper.passed.At (tokens ++ closing :: rest) :=
    Parser.At.passed ⟨here.rules, here.tokens⟩ (by rw [isOpening]; decide)
  have inner := h rounds deeper.passed (closing :: rest) (.of_kind isClosing (by decide) rest)
    behind (show parser.depth + 1 + room ≤ maxNestingDepth by omega)
    (show levels ≤ rounds + (parser.depth + 1) by omega)
  simp only [Succeeds, expressionWithin, leads_restoringDepth, chain, leads_bind, leads_rules,
    leads_current, isFirst, ruled, leads_descend, leads_write, operand, ParserM.group,
    leads_advance, leads_expect, leads_pure]
  refine ⟨fun _ => inner.next fun after there => ?_, fun deep => by omega⟩
  refine ⟨fun _ => ?_, fun other => other ?_⟩
  · have passed := there.passed (by rw [isClosing]; decide)
    exact (extend_succeeds_of_stops stops passed).next fun last behind =>
      ⟨rfl, behind.rules, behind.tokens⟩
  · rw [there.current, isClosing]

theorem SucceedsWithin.grouped {whole : List Token} {count : Nat}
    (h : SucceedsWithin σ room tokens expr) (grouped : Grouped tokens count whole) :
    SucceedsWithin σ (room + count) whole expr := by
  induction grouped with
  | bare => exact h
  | pair isOpening _ isClosing ih => exact ih.group isOpening isClosing

/-- Under a light load what can be read is read. -/
theorem expressionWithin_succeeds {power : BindingPower} {rounds : Nat} {rest : List Token}
    {parser : Parser σ} (reads : Reads (.expression power) tokens expr rest)
    (here : parser.At tokens) (light : parser.load < heavy)
    (enough : levels ≤ rounds + parser.depth) :
    Succeeds (expressionWithin rounds power) expr rest parser := by
  have taken := reads.taken rounds parser here
  have meets := expressionWithin_reliable rounds parser.depth enough power parser here.rules
    (Nat.le_refl _)
  refine (Leads.and taken meets).mono (fun _ _ both => both.1) ?_
  rintro diagnostic after ⟨tooDeep, many⟩
  exact absurd (many tooDeep) (Nat.not_le.2 light)

/-- What can be read is read with a level for each token, wherever it stands. -/
theorem succeedsWithin_of_reads (before : ∀ token ∈ tokens, token.kind ≠ .eof)
    (reads : ∀ rest, Stops rest → Reads (.expression .lowest) (tokens ++ rest) expr rest) :
    SucceedsWithin σ tokens.length tokens expr := by
  intro rounds parser rest stops here fits enough
  let final := Token.endOfInput (TokenStream.endPosition tokens)
  have isFinal : final.kind = .eof := rfl
  -- The tokens are read by themselves first, from as deep as the parser is.
  let alone : Parser TokenStream :=
    { Parser.ofSource Rules.standard (TokenStream.ofTokens tokens) with depth := parser.depth }
  have tokensAlone : alone.tokens = tokens ++ [final] :=
    TokenStream.tokens_ofTokens_of_ne_eof before
  have light : alone.load < heavy := by
    have depth : alone.depth = parser.depth := rfl
    rw [Parser.load, tokensAlone, depth, List.length_append, List.length_singleton]
    unfold heavy
    omega
  obtain ⟨after, ran, there⟩ := (expressionWithin_succeeds
    (reads [final] (.of_kind isFinal (by decide) [])) ⟨rfl, tokensAlone⟩ light enough).ran
  obtain ⟨-, after', ran', abuts⟩ := expressionWithin_carries (.of_kind isFinal (by decide) [])
    stops rounds .lowest alone parser
    ⟨rfl, here.rules, ⟨tokens, tokensAlone, here.tokens⟩, Nat.le_refl _⟩ expr after ran
  rw [Succeeds, Leads, ran']
  exact ⟨rfl, abuts.standard', (abuts.at_seam (Nat.le_of_eq (by rw [there.tokens]))).2⟩

end ParserM

/-- **Round brackets are not seen.** An expression in any number of pairs of round brackets is read
as the same tree, with the same places, unless the brackets make it too deep. They do not as long as
there is a level for each pair and for each of the tokens between them. -/
theorem parseExpression_grouped {openings tokens closings : List Token} {expr : Expr}
    (before : ∀ token ∈ tokens, token.kind ≠ .eof)
    (ok : (parseExpression (TokenStream.ofTokens tokens)).result = .ok expr)
    (areOpenings : ∀ opening ∈ openings, opening.kind = .openParen)
    (areClosings : ∀ closing ∈ closings, closing.kind = .closeParen)
    (pairs : openings.length = closings.length) :
    (parseExpression (TokenStream.ofTokens (openings ++ tokens ++ closings))).IsTreeOrTooDeep
      expr ∧
    (openings.length + tokens.length ≤ maxNestingDepth →
      (parseExpression (TokenStream.ofTokens (openings ++ tokens ++ closings))).result =
        .ok expr) := by
  have grouped : Grouped tokens openings.length (openings ++ tokens ++ closings) :=
    .of_brackets areOpenings areClosings pairs
  generalize openings ++ tokens ++ closings = whole at grouped ⊢
  let final := Token.endOfInput (TokenStream.endPosition whole)
  have isFinal : final.kind = .eof := rfl
  have stops : Stops [final] := .of_kind isFinal (by decide) []
  have wholeTokens : TokenSource.tokens (TokenStream.ofTokens whole) = whole ++ [final] :=
    TokenStream.tokens_ofTokens_of_ne_eof (grouped.ne_eof before)
  have reads := reads_of_parseExpression before ok
  constructor
  · refine parseExpression_complete isFinal ?_
    rw [wholeTokens]
    exact grouped.reads reads [final] stops
  · intro shallow
    rw [Nat.add_comm] at shallow
    let start := Parser.ofSource Rules.standard (TokenStream.ofTokens whole)
    have within := (ParserM.succeedsWithin_of_reads (σ := TokenStream) before reads).grouped grouped
    have fits : start.depth + (tokens.length + openings.length) ≤ maxNestingDepth := by
      rwa [show start.depth = 0 from rfl, Nat.zero_add]
    obtain ⟨after, ran, there⟩ := (within ParserM.levels start [final] stops ⟨rfl, wholeTokens⟩
      fits (Nat.le_refl _)).ran
    rw [parseExpression_of_expression ran, if_pos (there.current ▸ isFinal)]

/-- A conditional with an open end, in as many brackets as there are levels for. -/
theorem parseExpression_grouped_conditional :
    let token : TokenKind → Token := fun kind => ⟨kind, kind.display, Span.empty ⟨0, "shell"⟩⟩
    let tokens := [.ifWord, .dash, .trueWord, .openCurly, .closeCurly].map token
    let openings := List.replicate 251 (token .openParen)
    let closings := List.replicate 251 (token .closeParen)
    (∀ token ∈ tokens, token.kind ≠ .eof) ∧ (∀ opening ∈ openings, opening.kind = .openParen) ∧
      (∀ closing ∈ closings, closing.kind = .closeParen) ∧ openings.length = closings.length ∧
      openings.length + tokens.length = maxNestingDepth ∧
      ∃ expr, (parseExpression (TokenStream.ofTokens tokens)).result = .ok expr ∧
        (parseExpression (TokenStream.ofTokens (openings ++ tokens ++ closings))).result =
          .ok expr := by
  intro token tokens openings closings
  have before : ∀ token ∈ tokens, token.kind ≠ .eof := by decide
  have areOpenings : ∀ opening ∈ openings, opening.kind = .openParen :=
    fun opening mem => List.eq_of_mem_replicate mem ▸ rfl
  have areClosings : ∀ closing ∈ closings, closing.kind = .closeParen :=
    fun closing mem => List.eq_of_mem_replicate mem ▸ rfl
  have pairs : openings.length = closings.length := by
    rw [List.length_replicate, List.length_replicate]
  have fits : openings.length + tokens.length = maxNestingDepth := by
    rw [List.length_replicate]
    rfl
  obtain ⟨expr, ok⟩ := exists_ok_of_isOk
    (show (parseExpression (TokenStream.ofTokens tokens)).result.isOk = true by decide +kernel)
  exact ⟨before, areOpenings, areClosings, pairs, fits, expr, ok,
    (parseExpression_grouped before ok areOpenings areClosings pairs).2 (Nat.le_of_eq fits)⟩

end ExprCheck
