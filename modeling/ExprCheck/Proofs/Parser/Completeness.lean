import ExprCheck.Parser.Program
import ExprCheck.Proofs.Parser.Reading
import ExprCheck.Proofs.Parser.Step

/-!
# The parser takes every reading

If some tokens have a reading, then a parser under the standard rules that stands before them ends
with the tree of that reading and behind its tokens, unless it refuses a deeper tree:

* `Parser.At`: a parser under the standard rules, before the given tokens.
* `ParserM.Takes`: a step ends with a tree and before the tokens that follow it, or it refuses a
  deeper tree.
* `ParserM.Taken`: what a reading of each phrase means for the step that reads it.
* `Reads.taken`: it holds of every reading, for any number of rounds. There is one lemma for each
  rule of `Reads`.
-/

namespace ExprCheck

variable {σ : Type} [TokenSource σ]

/-- The parser stands before the given tokens, under the standard rules. -/
structure Parser.At (tokens : List Token) (parser : Parser σ) : Prop where
  rules : parser.rules = Rules.standard
  tokens : parser.tokens = tokens

namespace Parser.At

variable {parser : Parser σ} {first : Token} {later : List Token}

theorem current (h : parser.At (first :: later)) : parser.current = first :=
  parser.current_of_tokens h.tokens

theorem passed (h : parser.At (first :: later)) (notEnd : first.kind ≠ .eof) :
    parser.passed.At later :=
  ⟨h.rules, parser.tokens_passed h.tokens notEnd⟩

end Parser.At

namespace ParserM

/-- The step ends with the given tree and before the given tokens, or it refuses a deeper tree. -/
def Takes (step : ParserM σ Expr) (expr : Expr) (rest : List Token) (parser : Parser σ) : Prop :=
  Leads step (fun value after => value = expr ∧ after.At rest)
    (fun diagnostic _ => diagnostic.isTooDeep = true) parser

/-- What it means for the steps of the parser that a phrase can be read. -/
def Taken (σ : Type) [TokenSource σ] : Phrase → List Token → Expr → List Token → Prop
  | .expression power, tokens, expr, rest => ∀ rounds (parser : Parser σ), parser.At tokens →
    Takes (expressionWithin rounds power) expr rest parser
  | .operand, tokens, expr, rest => ∀ rounds (parser : Parser σ), parser.At tokens →
    ∃ rule, Rules.standardPrefix? parser.current.kind = some rule ∧
      Takes (operand (expressionWithin rounds) rule) expr rest parser
  | .operators power left, tokens, expr, rest => ∀ rounds limit (parser : Parser σ),
    parser.At tokens → Takes (extend (expressionWithin rounds) power limit left) expr rest parser
  | .block, tokens, expr, rest => ∀ rounds (parser : Parser σ), parser.At tokens →
    Takes (block (expressionWithin rounds)) expr rest parser
  | .branch, tokens, expr, rest => ∀ rounds limit (parser : Parser σ), parser.At tokens →
    parser.current.kind ≠ .eof →
    Takes (branchWithin (expressionWithin rounds) limit) expr rest parser

end ParserM

namespace Reads

/-! ### How readings start -/

theorem operand_starts {tokens : List Token} {expr : Expr} {rest : List Token}
    (h : Reads .operand tokens expr rest) :
    ∃ first later rule, tokens = first :: later ∧
      Rules.standardPrefix? first.kind = some rule := by
  cases h with
  | @literal token _ isLiteral =>
    refine ⟨_, _, .literal, rfl, ?_⟩
    revert isLiteral
    cases token.kind <;> simp [TokenKind.isLiteral, Rules.standardPrefix?]
  | sign isSign _ =>
    refine ⟨_, _, .sign, rfl, ?_⟩
    rcases isSign with isSign | isSign <;> rw [isSign] <;> rfl
  | group isOpening _ _ => exact ⟨_, _, .group, rfl, by rw [isOpening]; rfl⟩
  | blockOperand inner =>
    cases inner with
    | block isOpening _ _ => exact ⟨_, _, .block, rfl, by rw [isOpening]; rfl⟩
  | branchOperand isWord _ => exact ⟨_, _, .branch, rfl, by rw [isWord]; rfl⟩

theorem expression_starts {power : BindingPower} {tokens : List Token} {expr : Expr}
    {rest : List Token} (h : Reads (.expression power) tokens expr rest) :
    ∃ first later rule, tokens = first :: later ∧
      Rules.standardPrefix? first.kind = some rule := by
  cases h with
  | expression first _ => exact first.operand_starts

end Reads

namespace ParserM

variable {parser : Parser σ} {rounds : Nat}

theorem isTooDeep_refuseDepth {α : Type} {done : α → Parser σ → Prop} :
    Leads refuseDepth done (fun diagnostic _ => diagnostic.isTooDeep = true) parser :=
  rfl

/-- After a step that ends with a known tree and before known tokens. -/
theorem Takes.next {step : ParserM σ Expr} {expr : Expr} {rest : List Token}
    {done : Expr → Parser σ → Prop} (h : Takes step expr rest parser)
    (goal : ∀ after : Parser σ, after.At rest → done expr after) :
    Leads step done (fun diagnostic _ => diagnostic.isTooDeep = true) parser := by
  refine Leads.mono h ?_ fun _ _ refused => refused
  intro value after both
  obtain ⟨rfl, there⟩ := both
  exact goal after there

/-! ### Rows -/

/-- A row of readings, each of which the parser takes. -/
def RowTaken (σ : Type) [TokenSource σ] : List Token → List Expr → List Token → Prop :=
  Row fun tokens item rest => ∃ _ : Reads (.expression .lowest) tokens item rest,
    Taken σ (.expression .lowest) tokens item rest

theorem itemsUntil_takes {tokens rest : List Token} {items : List Expr} {next : Token}
    {closing : TokenKind} {limit : Nat} (row : RowTaken σ tokens items (next :: rest))
    (ends : next.kind = closing) (closes : Rules.standardPrefix? closing = none)
    (here : parser.At tokens) (enough : tokens.length ≤ limit + 1) :
    Leads (itemsUntil (expressionWithin rounds) closing limit)
      (fun items' after => items' = items ∧ after.At (next :: rest))
      (fun diagnostic _ => diagnostic.isTooDeep = true) parser := by
  generalize eq : next :: rest = final at row
  induction row generalizing parser limit with
  | nil =>
    subst eq
    cases limit with
    | zero => exact ⟨rfl, here⟩
    | succ limit =>
      simp only [itemsUntil, leads_bind, leads_current, here.current, if_pos (Or.inl ends)]
      exact ⟨rfl, here⟩
  | @cons tokens item middle items rest' first later ih =>
    obtain ⟨reads, taken⟩ := first
    obtain ⟨start, behind, rule, rfl, found⟩ := reads.expression_starts
    have shorter := reads.length_le
    simp only [Phrase.least, List.length_cons] at shorter enough
    have nonempty := later.length_le fun _ _ _ read =>
      read.elim fun reads _ => Nat.le_of_succ_le reads.length_le
    rw [← eq, List.length_cons] at nonempty
    obtain ⟨limit, rfl⟩ : ∃ limit', limit = limit' + 1 := ⟨limit - 1, by omega⟩
    have goesOn : ¬ (start.kind = closing ∨ start.kind = .eof) := by
      intro same
      rcases same with same | same
      · rw [same, closes] at found
        cases found
      · rw [same] at found
        cases found
    simp only [itemsUntil, leads_bind, leads_current, here.current, if_neg goesOn, leads_pure]
    refine (taken rounds parser here).next fun after there => ?_
    refine (ih there (by omega) eq).mono ?_ fun _ _ refused => refused
    intro items' last both
    obtain ⟨rfl, final⟩ := both
    exact ⟨rfl, final⟩

/-! ### Operands -/

theorem literal_taken {token : Token} {rest : List Token} (isLiteral : token.kind.isLiteral) :
    Taken σ .operand (token :: rest) (.literal () token) rest := by
  intro rounds parser here
  have notEnd : token.kind ≠ .eof := by
    intro isEnd
    rw [isEnd] at isLiteral
    cases isLiteral
  refine ⟨.literal, ?_, ?_⟩
  · rw [here.current]
    revert isLiteral
    cases token.kind <;> simp [TokenKind.isLiteral, Rules.standardPrefix?]
  · simp only [Takes, operand, literal, leads_bind, leads_current, here.current, if_pos isLiteral,
      leads_advance, leads_pure]
    exact ⟨trivial, here.passed notEnd⟩

theorem sign_taken {operator : Token} {tokens rest : List Token} {inner : Expr}
    (isSign : operator.kind = .plus ∨ operator.kind = .dash)
    (taken : Taken σ (.expression .additive) tokens inner rest) :
    Taken σ .operand (operator :: tokens)
      (.unary () operator inner ⟨operator.span.start, inner.span.stop⟩) rest := by
  intro rounds parser here
  have isFirst := here.current
  have notEnd : operator.kind ≠ .eof := by rcases isSign with h | h <;> rw [h] <;> decide
  have power : Rules.standard.powerOf operator.kind = .additive := by
    rcases isSign with h | h <;> rw [h] <;> rfl
  refine ⟨.sign, ?_, ?_⟩
  · rw [isFirst]
    rcases isSign with h | h <;> rw [h] <;> rfl
  · simp only [Takes, operand, sign, leads_bind, leads_rules, leads_advance, leads_pure, here.rules,
      isFirst, power]
    exact (taken rounds parser.passed (here.passed notEnd)).next fun after there => ⟨rfl, there⟩

theorem group_taken {opening closing : Token} {tokens rest : List Token} {inner : Expr}
    (isOpening : opening.kind = .openParen) (isClosing : closing.kind = .closeParen)
    (taken : Taken σ (.expression .lowest) tokens inner (closing :: rest)) :
    Taken σ .operand (opening :: tokens) inner rest := by
  intro rounds parser here
  have isFirst := here.current
  have passed := here.passed (by rw [isOpening]; decide)
  refine ⟨.group, ?_, ?_⟩
  · rw [isFirst, isOpening]
    rfl
  · simp only [Takes, operand, group, leads_bind, leads_advance, leads_expect, leads_pure]
    refine (taken rounds parser.passed passed).next fun after there => ?_
    rw [there.current]
    exact ⟨fun _ => ⟨rfl, there.passed (by rw [isClosing]; decide)⟩,
      fun other => absurd isClosing other⟩

theorem block_taken {opening closing : Token} {tokens rest : List Token} {items : List Expr}
    (isOpening : opening.kind = .openCurly) (row : RowTaken σ tokens items (closing :: rest))
    (isClosing : closing.kind = .closeCurly) :
    Taken σ .block (opening :: tokens)
      (.block () items ⟨opening.span.start, closing.span.stop⟩) rest := by
  intro rounds parser here
  have passed := here.passed (by rw [isOpening]; decide)
  have enough : tokens.length ≤ TokenSource.remaining parser.passed.source + 1 := by
    rw [← passed.tokens]
    exact TokenSource.length_tokens_le _
  simp only [Takes, block, leads_bind, leads_expect, here.current, isOpening, leads_withRemaining,
    leads_pure]
  refine ⟨fun _ => ?_, fun other => absurd rfl other⟩
  refine (itemsUntil_takes row isClosing rfl passed enough).mono ?_ fun _ _ refused => refused
  intro items' after both
  obtain ⟨rfl, there⟩ := both
  rw [there.current]
  exact ⟨fun _ => ⟨rfl, there.passed (by rw [isClosing]; decide)⟩,
    fun other => absurd isClosing other⟩

/-! ### Conditionals -/

/-- A conditional is read up to the end of its first body, and then as the next token says. -/
theorem branch_taken {word : Token} {tokens middle later rest : List Token}
    {condition body expr : Expr} (first : Taken σ (.expression .lowest) tokens condition middle)
    (second : Taken σ .block middle body later)
    (goesOn : ∀ rounds limit (after : Parser σ), after.At later →
      Takes (do
        let token ← current
        match token.kind with
        | .elsifWord =>
          descend
          let otherwise ← branchWithin (expressionWithin rounds) limit
          return .ifElse () condition body otherwise ⟨word.span.start, otherwise.span.stop⟩
        | .elseWord =>
          let _ ← advance
          let otherwise ← block (expressionWithin rounds)
          return .ifElse () condition body otherwise ⟨word.span.start, otherwise.span.stop⟩
        | _ => return .ifThen () condition body ⟨word.span.start, body.span.stop⟩)
        expr rest after) :
    Taken σ .branch (word :: tokens) expr rest := by
  intro rounds limit parser here notEnd
  cases limit with
  | zero => exact isTooDeep_refuseDepth
  | succ limit =>
    have isWord := here.current
    rw [isWord] at notEnd
    simp only [Takes, branchWithin, leads_bind, leads_advance, isWord]
    refine (first rounds parser.passed (here.passed notEnd)).next fun between there => ?_
    exact (second rounds between there).next fun after behind => goesOn rounds limit after behind

theorem ifThen_taken {word next : Token} {tokens middle rest : List Token} {condition body : Expr}
    (first : Taken σ (.expression .lowest) tokens condition middle)
    (second : Taken σ .block middle body (next :: rest)) (notElsif : next.kind ≠ .elsifWord)
    (notElse : next.kind ≠ .elseWord) :
    Taken σ .branch (word :: tokens)
      (.ifThen () condition body ⟨word.span.start, body.span.stop⟩) (next :: rest) := by
  refine branch_taken first second fun rounds limit after there => ?_
  simp only [Takes, leads_bind, leads_current, there.current]
  exact ⟨rfl, there⟩

theorem ifElse_taken {word next : Token} {tokens middle later rest : List Token}
    {condition body otherwise : Expr}
    (first : Taken σ (.expression .lowest) tokens condition middle)
    (second : Taken σ .block middle body (next :: later)) (isElse : next.kind = .elseWord)
    (third : Taken σ .block later otherwise rest) :
    Taken σ .branch (word :: tokens)
      (.ifElse () condition body otherwise ⟨word.span.start, otherwise.span.stop⟩) rest := by
  refine branch_taken first second fun rounds limit after there => ?_
  have passed := there.passed (by rw [isElse]; decide)
  simp only [Takes, leads_bind, leads_current, there.current, isElse, leads_advance, leads_pure]
  exact (third rounds after.passed passed).next fun last behind => ⟨rfl, behind⟩

theorem ifElsif_taken {word next : Token} {tokens middle later rest : List Token}
    {condition body otherwise : Expr}
    (first : Taken σ (.expression .lowest) tokens condition middle)
    (second : Taken σ .block middle body (next :: later)) (isElsif : next.kind = .elsifWord)
    (third : Taken σ .branch (next :: later) otherwise rest) :
    Taken σ .branch (word :: tokens)
      (.ifElse () condition body otherwise ⟨word.span.start, otherwise.span.stop⟩) rest := by
  refine branch_taken first second fun rounds limit after there => ?_
  have notEnd : after.current.kind ≠ .eof := by
    rw [there.current, isElsif]
    decide
  let deeper : Parser σ := { after with depth := after.depth + 1 }
  have takes := third rounds limit deeper ⟨there.rules, there.tokens⟩ notEnd
  simp only [Takes, leads_bind, leads_current, there.current, isElsif, leads_descend, leads_pure]
  exact ⟨fun _ => takes.next fun last behind => ⟨rfl, behind⟩, fun _ => rfl⟩

/-! ### Operators and expressions -/

theorem stop_taken {power : BindingPower} {left : Expr} {token : Token} {rest : List Token}
    (stops : ∀ rule, Rules.standardInfix? token.kind = some rule → ¬ power < rule.power) :
    Taken σ (.operators power left) (token :: rest) left (token :: rest) := by
  intro rounds limit parser here
  cases limit with
  | zero => exact isTooDeep_refuseDepth
  | succ limit =>
    have ruled : parser.rules.infixRule? token.kind = Rules.standardInfix? token.kind := by
      rw [here.rules]
      rfl
    simp only [Takes, extend, leads_bind, leads_rules, leads_current, here.current, ruled]
    cases found : Rules.standardInfix? token.kind with
    | none => exact ⟨rfl, here⟩
    | some rule =>
      simp only [if_neg (stops rule found), leads_pure]
      exact ⟨trivial, here⟩

theorem operator_taken {power : BindingPower} {left right expr : Expr} {operator : Token}
    {rule : InfixRule} {tokens middle rest : List Token}
    (found : Rules.standardInfix? operator.kind = some rule) (tighter : power < rule.power)
    (operand : Taken σ (.expression rule.operandPower) tokens right middle)
    (operators : Taken σ
      (.operators power (.binary () left operator right ⟨left.span.start, right.span.stop⟩))
      middle expr rest) :
    Taken σ (.operators power left) (operator :: tokens) expr rest := by
  intro rounds limit parser here
  cases limit with
  | zero => exact isTooDeep_refuseDepth
  | succ limit =>
    have isFirst := here.current
    have notEnd : operator.kind ≠ .eof := by
      intro isEnd
      rw [isEnd] at found
      cases found
    have ruled : parser.rules.infixRule? operator.kind = some rule := by
      rw [here.rules]
      exact found
    let deeper : Parser σ := { parser with depth := parser.depth + 1 }
    have isFirst' : deeper.current = operator := isFirst
    have passed : deeper.passed.At tokens := Parser.At.passed ⟨here.rules, here.tokens⟩ notEnd
    simp only [Takes, extend, leads_bind, leads_rules, leads_current, isFirst, ruled,
      if_pos tighter, leads_descend, application, leads_advance, leads_pure]
    refine ⟨fun _ => (operand rounds deeper.passed passed).next fun between there => ?_,
      fun _ => rfl⟩
    rw [isFirst']
    exact operators rounds limit between there

theorem expression_taken {power : BindingPower} {left expr : Expr}
    {tokens middle rest : List Token} (operand : Taken σ .operand tokens left middle)
    (operators : Taken σ (.operators power left) middle expr rest) :
    Taken σ (.expression power) tokens expr rest := by
  intro rounds parser here
  cases rounds with
  | zero => exact isTooDeep_refuseDepth
  | succ rounds =>
    -- The operand is read one level deeper, which changes neither its tokens nor its rule.
    let deeper : Parser σ :=
      { parser with
        depth := parser.depth + 1
        log := .operand parser.current.kind parser.current.start.offset :: parser.log }
    obtain ⟨rule, found, takes⟩ := operand rounds deeper ⟨here.rules, here.tokens⟩
    have ruled : parser.rules.prefixRule? parser.current.kind = some rule := by
      rw [here.rules]
      exact found
    simp only [Takes, expressionWithin, leads_restoringDepth, chain, leads_bind, leads_rules,
      leads_current, ruled, leads_descend, leads_write]
    refine ⟨fun _ => takes.next fun between there => ?_, fun _ => rfl⟩
    exact (operators rounds levels between there).next fun after behind =>
      ⟨rfl, behind.rules, behind.tokens⟩

end ParserM

namespace Reads

open ParserM

/-- The parser takes every phrase that can be read. -/
theorem taken {phrase : Phrase} {tokens : List Token} {expr : Expr} {rest : List Token}
    (h : Reads phrase tokens expr rest) : Taken σ phrase tokens expr rest := by
  induction h using Reads.induct with
  | expression _ _ operand operators => exact expression_taken operand operators
  | literal isLiteral => exact literal_taken isLiteral
  | sign isSign _ inner => exact sign_taken isSign inner
  | group isOpening _ isClosing inner => exact group_taken isOpening isClosing inner
  | blockOperand inner ih =>
    intro rounds parser here
    refine ⟨.block, ?_, ih rounds parser here⟩
    cases inner with
    | block isOpening _ _ =>
      rw [here.current, isOpening]
      rfl
  | branchOperand isWord _ ih =>
    intro rounds parser here
    have isFirst := here.current
    refine ⟨.branch, ?_, ih rounds levels parser here ?_⟩
    · rw [isFirst, isWord]
      rfl
    · rw [isFirst, isWord]
      decide
  | stop stops => exact stop_taken stops
  | operator found tighter _ _ operand operators =>
    exact operator_taken found tighter operand operators
  | block isOpening _ isClosing row => exact block_taken isOpening row isClosing
  | ifThen _ _ notElsif notElse condition body =>
    exact ifThen_taken condition body notElsif notElse
  | ifElse _ _ isElse _ condition body otherwise =>
    exact ifElse_taken condition body isElse otherwise
  | ifElsif _ _ isElsif _ condition body otherwise =>
    exact ifElsif_taken condition body isElsif otherwise

end Reads

end ExprCheck
