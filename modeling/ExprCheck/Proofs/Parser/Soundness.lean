import ExprCheck.Parser.Program
import ExprCheck.Proofs.Parser.Reading
import ExprCheck.Proofs.Parser.Step

/-!
# What the parser has read when it succeeds

Under the standard rules, a success of the parser is a reading of the tokens that it passed, and a
refusal of a deeper tree needs many tokens:

* `Parser.load`: the depth and the number of tokens still to be read, taken together. Each step that
  goes deeper passes a token for it, so the load never grows.
* `Parser.Reaches`: what the steps keep, which is the rules and the bounds on depth and load.
* `ParserM.Meets`: a step reads a phrase, and it refuses a deeper tree only under a load that more
  than `maxNestingDepth` tokens make.
* `expressionWithin_reliable`: expressions meet this, and `itemsUntil_leads` says it of rows of
  them.

There is one lemma for each rule of the parser. It asks of the expressions inside only that they
are `Reliable`, from some depth on.
-/

namespace ExprCheck

namespace Parser

variable {σ : Type} [TokenSource σ]

/-- The depth and the number of tokens still to be read. -/
def load (parser : Parser σ) : Nat :=
  parser.depth + parser.tokens.length

theorem length_tokens_pos (parser : Parser σ) : 0 < parser.tokens.length := by
  obtain ⟨later, eq⟩ := parser.tokens_eq_cons
  rw [eq]
  exact Nat.succ_pos _

theorem depth_lt_load (parser : Parser σ) : parser.depth < parser.load :=
  Nat.lt_add_of_pos_right parser.length_tokens_pos

/-- Before the end of the input there is a token to be read, and the end. -/
theorem depth_add_two_le_load {parser : Parser σ} (h : parser.current.kind ≠ .eof) :
    parser.depth + 2 ≤ parser.load := by
  have later := parser.passed.length_tokens_pos
  rw [load, parser.tokens_of_ne_eof h, List.length_cons]
  omega

theorem load_passed {parser : Parser σ} (h : parser.current.kind ≠ .eof) :
    parser.passed.load + 1 = parser.load := by
  rw [load, load, parser.tokens_of_ne_eof h, List.length_cons, depth_passed, Nat.add_assoc]

theorem kind_eq_eof_of_length_le_one {parser : Parser σ} (h : parser.tokens.length ≤ 1) :
    parser.current.kind = .eof := by
  by_contra notEnd
  have later := parser.passed.length_tokens_pos
  rw [parser.tokens_of_ne_eof notEnd, List.length_cons] at h
  omega

/-- A parser under the standard rules that is not above an earlier one, and whose load is less by
at least `charge`. -/
structure Reaches (charge : Nat) (before after : Parser σ) : Prop where
  rules : after.rules = Rules.standard
  depth : before.depth ≤ after.depth
  load : after.load + charge ≤ before.load

theorem Reaches.trans {charge charge' : Nat} {before middle after : Parser σ}
    (h : Reaches charge before middle) (h' : Reaches charge' middle after) :
    Reaches (charge + charge') before after :=
  ⟨h'.rules, Nat.le_trans h.depth h'.depth, by have := h.load; have := h'.load; omega⟩

theorem Reaches.weaken {charge charge' : Nat} {before after : Parser σ}
    (h : Reaches charge before after) (le : charge' ≤ charge) : Reaches charge' before after :=
  ⟨h.rules, h.depth, Nat.le_trans (Nat.add_le_add_left le _) h.load⟩

theorem Reaches.refl {parser : Parser σ} (standard : parser.rules = Rules.standard) :
    Reaches 0 parser parser :=
  ⟨standard, Nat.le_refl _, Nat.le_refl _⟩

theorem Reaches.passed {parser : Parser σ} (standard : parser.rules = Rules.standard)
    (notEnd : parser.current.kind ≠ .eof) : Reaches 1 parser parser.passed :=
  ⟨standard, Nat.le_refl _, Nat.le_of_eq (load_passed notEnd)⟩

/-- One level deeper and past one token, the load is the same. -/
theorem Reaches.descended {parser deeper : Parser σ} (standard : deeper.rules = Rules.standard)
    (notEnd : deeper.current.kind ≠ .eof) (depthEq : deeper.depth = parser.depth + 1)
    (tokensEq : deeper.tokens = parser.tokens) : Reaches 0 parser deeper.passed := by
  have passed := load_passed notEnd
  have deepened : deeper.load = parser.load + 1 := by
    rw [Parser.load, Parser.load, depthEq, tokensEq]
    exact Nat.add_right_comm _ _ _
  refine ⟨standard, ?_, by omega⟩
  rw [depth_passed, depthEq]
  exact Nat.le_succ _

end Parser

namespace ParserM

open ExprCheck.Parser (Reaches)

variable {σ : Type} [TokenSource σ]

/-- The load under which a deeper tree may be refused. -/
def heavy : Nat :=
  maxNestingDepth + 2

theorem heavy_le_load {parser : Parser σ} (deep : levels ≤ parser.depth) : heavy ≤ parser.load :=
  Nat.le_trans (Nat.succ_le_succ deep) parser.depth_lt_load

/-- At the greatest depth, a token that is still to be read makes the load heavy. -/
theorem heavy_le_load_of_ne_eof {parser : Parser σ} (deep : maxNestingDepth ≤ parser.depth)
    (notEnd : parser.current.kind ≠ .eof) : heavy ≤ parser.load :=
  Nat.le_trans (Nat.add_le_add_right deep 2) (parser.depth_add_two_le_load notEnd)

/-- A step that reads a phrase and makes the load less by at least `charge`, and that refuses a
deeper tree only under a heavy load. -/
def Meets (charge : Nat) (phrase : Phrase) (step : ParserM σ Expr) (parser : Parser σ) : Prop :=
  Leads step
    (fun expr after => Reads phrase parser.tokens expr after.tokens ∧ Reaches charge parser after)
    (fun diagnostic _ => diagnostic.isTooDeep → heavy + charge ≤ parser.load) parser

/-- A reader of expressions that can be relied on from some depth on. -/
def Reliable (nested : BindingPower → ParserM σ Expr) (depth : Nat) : Prop :=
  ∀ power parser, parser.rules = Rules.standard → depth ≤ parser.depth →
    Meets 0 (.expression power) (nested power) parser

variable {nested : BindingPower → ParserM σ Expr} {depth : Nat} {parser : Parser σ}

/-- A step after others: what they have passed counts for it as well. -/
theorem Meets.after {charge charge' total : Nat} {phrase : Phrase} {step : ParserM σ Expr}
    {before middle : Parser σ} {done : Expr → Parser σ → Prop}
    (meets : Meets charge' phrase step middle) (reached : Reaches charge before middle)
    (fits : total ≤ charge + charge')
    (goal : ∀ expr after, Reads phrase middle.tokens expr after.tokens →
      Reaches charge' middle after → Reaches total before after → done expr after) :
    Leads step done (fun diagnostic _ => diagnostic.isTooDeep → heavy + total ≤ before.load)
      middle := by
  refine Leads.mono meets ?_ ?_
  · intro expr after both
    obtain ⟨reads, reaches⟩ := both
    exact goal expr after reads reaches ((reached.trans reaches).weaken fits)
  · intro diagnostic _ refused tooDeep
    have bound := refused tooDeep
    have load := reached.load
    omega

/-! ### Operands -/

theorem isLiteral_of_prefixRule {kind : TokenKind}
    (h : Rules.standardPrefix? kind = some .literal) : kind.isLiteral = true := by
  cases kind <;> first | rfl | cases h

theorem isSign_of_prefixRule {kind : TokenKind} (h : Rules.standardPrefix? kind = some .sign) :
    kind = .plus ∨ kind = .dash := by
  cases kind <;> first | exact .inl rfl | exact .inr rfl | cases h

theorem isOpenParen_of_prefixRule {kind : TokenKind}
    (h : Rules.standardPrefix? kind = some .group) : kind = .openParen := by
  cases kind <;> first | rfl | cases h

theorem isIf_of_prefixRule {kind : TokenKind} (h : Rules.standardPrefix? kind = some .branch) :
    kind = .ifWord := by
  cases kind <;> first | rfl | cases h

theorem ne_eof_of_prefixRule {kind : TokenKind} {rule : PrefixRule}
    (h : Rules.standardPrefix? kind = some rule) : kind ≠ .eof := by
  intro isEnd
  rw [isEnd] at h
  cases h

theorem ne_eof_of_infixRule {kind : TokenKind} {rule : InfixRule}
    (h : Rules.standardInfix? kind = some rule) : kind ≠ .eof := by
  intro isEnd
  rw [isEnd] at h
  cases h

theorem powerOf_sign {kind : TokenKind} (h : kind = .plus ∨ kind = .dash) :
    Rules.standard.powerOf kind = .additive := by
  rcases h with rfl | rfl <;> rfl

theorem literal_meets (standard : parser.rules = Rules.standard)
    (rule : Rules.standardPrefix? parser.current.kind = some .literal) :
    Meets 1 .operand literal parser := by
  have isLiteral := isLiteral_of_prefixRule rule
  have notEnd := ne_eof_of_prefixRule rule
  simp only [Meets, literal, leads_bind, leads_current, if_pos isLiteral, leads_advance, leads_pure]
  refine ⟨?_, .passed standard notEnd⟩
  rw [parser.tokens_of_ne_eof notEnd]
  exact .literal isLiteral

theorem sign_meets (reliable : Reliable nested depth) (deep : depth ≤ parser.depth)
    (standard : parser.rules = Rules.standard)
    (rule : Rules.standardPrefix? parser.current.kind = some .sign) :
    Meets 1 .operand (sign nested) parser := by
  have isSign := isSign_of_prefixRule rule
  have notEnd := ne_eof_of_prefixRule rule
  have passed := Reaches.passed standard notEnd
  simp only [Meets, sign, leads_bind, leads_rules, leads_advance, leads_pure, standard,
    powerOf_sign isSign]
  refine (reliable .additive parser.passed passed.rules deep).after passed (Nat.le_refl _) ?_
  intro operand after reads _ reached
  refine ⟨?_, reached⟩
  rw [parser.tokens_of_ne_eof notEnd]
  exact .sign isSign reads

theorem group_meets (reliable : Reliable nested depth) (deep : depth ≤ parser.depth)
    (standard : parser.rules = Rules.standard)
    (rule : Rules.standardPrefix? parser.current.kind = some .group) :
    Meets 1 .operand (group nested) parser := by
  have isOpening := isOpenParen_of_prefixRule rule
  have notEnd := ne_eof_of_prefixRule rule
  have passed := Reaches.passed standard notEnd
  simp only [Meets, group, leads_bind, leads_advance, leads_expect, leads_pure]
  refine (reliable .lowest parser.passed passed.rules deep).after passed (Nat.le_refl _) ?_
  intro inner after reads _ reached
  refine ⟨fun isClosing => ?_, fun _ tooDeep => absurd tooDeep (by simp)⟩
  have notEnd' : after.current.kind ≠ .eof := by rw [isClosing]; decide
  refine ⟨?_, (reached.trans (.passed reached.rules notEnd')).weaken (Nat.le_succ _)⟩
  rw [after.tokens_of_ne_eof notEnd'] at reads
  rw [parser.tokens_of_ne_eof notEnd]
  exact .group isOpening reads isClosing

/-- A row of expressions ends at a token of the closing kind or at the end of the input, if it may
take as many rounds as there are tokens. -/
theorem itemsUntil_leads (reliable : Reliable nested depth) (parser : Parser σ)
    {closing : TokenKind} {rounds : Nat} (deep : depth ≤ parser.depth)
    (standard : parser.rules = Rules.standard) (enough : parser.tokens.length ≤ rounds + 1) :
    Leads (itemsUntil nested closing rounds)
      (fun items after =>
        Row (Reads (.expression .lowest)) parser.tokens items after.tokens ∧
          Reaches 0 parser after ∧ (after.current.kind = closing ∨ after.current.kind = .eof))
      (fun diagnostic _ => diagnostic.isTooDeep → heavy ≤ parser.load) parser := by
  induction rounds generalizing parser with
  | zero => exact ⟨.nil, .refl standard, .inr (parser.kind_eq_eof_of_length_le_one enough)⟩
  | succ rounds ih =>
    simp only [itemsUntil, leads_bind, leads_current]
    split
    · next ends => exact ⟨.nil, .refl standard, ends⟩
    · simp only [leads_bind, leads_pure]
      refine (reliable .lowest parser standard deep).after (.refl standard) (Nat.le_refl _) ?_
      intro item middle reads _ reached
      have shorter := reads.length_le
      simp only [Phrase.least] at shorter
      refine (ih middle (Nat.le_trans deep reached.depth) reached.rules (by omega)).mono ?_ ?_
      · intro items after found
        obtain ⟨row, reaches, ends⟩ := found
        exact ⟨.cons reads row, reached.trans reaches, ends⟩
      · intro diagnostic _ refused tooDeep
        exact Nat.le_trans (refused tooDeep) reached.load

theorem length_tokens_le_remaining (parser : Parser σ) :
    parser.tokens.length ≤ TokenSource.remaining parser.source + 1 :=
  TokenSource.length_tokens_le parser.source

theorem block_meets (reliable : Reliable nested depth) (parser : Parser σ)
    (deep : depth ≤ parser.depth) (standard : parser.rules = Rules.standard) :
    Meets 1 .block (block nested) parser := by
  simp only [Meets, block, leads_bind, leads_expect, leads_withRemaining, leads_pure]
  refine ⟨fun isOpening => ?_, fun _ tooDeep => absurd tooDeep (by simp)⟩
  have notEnd : parser.current.kind ≠ .eof := by rw [isOpening]; decide
  have passed := Reaches.passed standard notEnd
  refine (itemsUntil_leads reliable parser.passed deep passed.rules
    (length_tokens_le_remaining parser.passed)).mono ?_ ?_
  · intro items after found
    obtain ⟨row, reaches, -⟩ := found
    refine ⟨fun isClosing => ?_, fun _ tooDeep => absurd tooDeep (by simp)⟩
    have notEnd' : after.current.kind ≠ .eof := by rw [isClosing]; decide
    have closed := (passed.trans reaches).trans (.passed reaches.rules notEnd')
    refine ⟨?_, closed.weaken (Nat.le_succ _)⟩
    rw [after.tokens_of_ne_eof notEnd'] at row
    rw [parser.tokens_of_ne_eof notEnd]
    exact .block isOpening row isClosing
  · intro diagnostic _ refused tooDeep
    have bound := refused tooDeep
    have load := passed.load
    omega

/-- The continuation of a conditional goes one level deeper, and the word that continues it pays for
that. -/
theorem elsif_meets {rounds : Nat} {parser after : Parser σ} {word : Token}
    {tokens middle : List Token} {condition body : Expr}
    (nestedBranch : ∀ deeper : Parser σ, depth ≤ deeper.depth → deeper.rules = Rules.standard →
      deeper.current.kind ≠ .eof → heavy ≤ rounds + deeper.depth →
      Meets 1 .branch (branchWithin nested rounds) deeper)
    (deep : depth ≤ parser.depth) (enough : heavy ≤ rounds + 1 + parser.depth)
    (first : Reads (.expression .lowest) tokens condition middle)
    (second : Reads .block middle body after.tokens) (reached : Reaches 2 parser after)
    (isElsif : after.current.kind = .elsifWord) :
    Leads (do
        descend
        let otherwise ← branchWithin nested rounds
        return .ifElse () condition body otherwise ⟨word.span.start, otherwise.span.stop⟩)
      (fun expr last => Reads .branch (word :: tokens) expr last.tokens ∧ Reaches 1 parser last)
      (fun diagnostic _ => diagnostic.isTooDeep → heavy + 1 ≤ parser.load) after := by
  have notEnd : after.current.kind ≠ .eof := by rw [isElsif]; decide
  rw [after.tokens_of_ne_eof notEnd] at second
  have below := reached.depth
  have lighter := reached.load
  simp only [leads_bind, leads_descend, leads_pure]
  refine ⟨fun _ => ?_, fun tooDeep _ => ?_⟩
  · let deeper : Parser σ := { after with depth := after.depth + 1 }
    have deepened : deeper.load = after.load + 1 := Nat.add_right_comm _ _ _
    have enough' : heavy ≤ rounds + (after.depth + 1) := by omega
    refine (nestedBranch deeper (Nat.le_trans deep (Nat.le_succ_of_le below)) reached.rules notEnd
      enough').mono ?_ ?_
    · intro otherwise last found
      obtain ⟨third, reaches⟩ := found
      have third : Reads .branch after.tokens otherwise last.tokens := third
      rw [after.tokens_of_ne_eof notEnd] at third
      refine ⟨.ifElsif first second isElsif third, reaches.rules,
        Nat.le_trans below (Nat.le_of_succ_le reaches.depth), ?_⟩
      have load := reaches.load
      omega
    · intro diagnostic _ refused tooDeep
      have bound := refused tooDeep
      omega
  · have loaded := heavy_le_load_of_ne_eof tooDeep notEnd
    omega

theorem else_meets (reliable : Reliable nested depth) {parser after : Parser σ} {word : Token}
    {tokens middle : List Token} {condition body : Expr} (deep : depth ≤ parser.depth)
    (first : Reads (.expression .lowest) tokens condition middle)
    (second : Reads .block middle body after.tokens) (reached : Reaches 2 parser after)
    (isElse : after.current.kind = .elseWord) :
    Leads (do
        let _ ← advance
        let otherwise ← block nested
        return .ifElse () condition body otherwise ⟨word.span.start, otherwise.span.stop⟩)
      (fun expr last => Reads .branch (word :: tokens) expr last.tokens ∧ Reaches 1 parser last)
      (fun diagnostic _ => diagnostic.isTooDeep → heavy + 1 ≤ parser.load) after := by
  have notEnd : after.current.kind ≠ .eof := by rw [isElse]; decide
  have passed := reached.trans (.passed reached.rules notEnd)
  rw [after.tokens_of_ne_eof notEnd] at second
  simp only [leads_bind, leads_advance, leads_pure]
  refine (block_meets reliable after.passed (Nat.le_trans deep passed.depth) passed.rules).after
    passed (by omega) ?_
  intro otherwise last third _ reached'
  exact ⟨.ifElse first second isElse third, reached'⟩

/-- A conditional that may go round as often as it may go deeper. -/
theorem branchWithin_meets (reliable : Reliable nested depth) (parser : Parser σ) {rounds : Nat}
    (deep : depth ≤ parser.depth) (standard : parser.rules = Rules.standard)
    (notEnd : parser.current.kind ≠ .eof) (enough : heavy ≤ rounds + parser.depth) :
    Meets 1 .branch (branchWithin nested rounds) parser := by
  induction rounds generalizing parser with
  | zero =>
    intro _
    have := parser.depth_lt_load
    omega
  | succ rounds ih =>
    have passed := Reaches.passed standard notEnd
    simp only [Meets, branchWithin, leads_bind, leads_advance, leads_current]
    refine (reliable .lowest parser.passed passed.rules deep).after passed (Nat.le_refl _) ?_
    intro condition middle first _ reached
    refine (block_meets reliable middle (Nat.le_trans deep reached.depth) reached.rules).after
      reached (Nat.le_succ 1) ?_
    intro body after second reaches _
    have reached' := reached.trans reaches
    rw [parser.tokens_of_ne_eof notEnd]
    split
    · next isElsif => exact elsif_meets ih deep enough first second reached' isElsif
    · next isElse => exact else_meets reliable deep first second reached' isElse
    · next notElsif notElse =>
      obtain ⟨later, eq⟩ := after.tokens_eq_cons
      refine ⟨?_, reached'.weaken (Nat.le_succ 1)⟩
      rw [eq] at second ⊢
      exact .ifThen first second notElsif notElse

theorem operand_meets (reliable : Reliable nested depth) (parser : Parser σ)
    (deep : depth ≤ parser.depth) (below : 0 < parser.depth)
    (standard : parser.rules = Rules.standard) {rule : PrefixRule}
    (found : Rules.standardPrefix? parser.current.kind = some rule) :
    Meets 1 .operand (operand nested rule) parser := by
  cases rule with
  | literal => exact literal_meets standard found
  | sign => exact sign_meets reliable deep standard found
  | group => exact group_meets reliable deep standard found
  | block =>
    exact (block_meets reliable parser deep standard).mono
      (fun _ _ both => ⟨.blockOperand both.1, both.2⟩) fun _ _ refused => refused
  | branch =>
    have notEnd := ne_eof_of_prefixRule found
    have enough : heavy ≤ levels + parser.depth := Nat.add_le_add_left below levels
    refine (branchWithin_meets reliable parser deep standard notEnd enough).mono ?_
      fun _ _ refused => refused
    intro expr after both
    obtain ⟨reads, reaches⟩ := both
    rw [parser.tokens_of_ne_eof notEnd] at reads ⊢
    exact ⟨.branchOperand (isIf_of_prefixRule found) reads, reaches⟩
  | misplaced =>
    intro tooDeep
    rw [Token.isTooDeep_misplaced] at tooDeep
    cases tooDeep

/-! ### Operators -/

/-- The operators after an operand, which may go round as often as they may go deeper. -/
theorem extend_meets (reliable : Reliable nested depth) (parser : Parser σ) {power : BindingPower}
    {rounds : Nat} {left : Expr} (deep : depth ≤ parser.depth)
    (standard : parser.rules = Rules.standard) (enough : levels ≤ rounds + parser.depth) :
    Meets 0 (.operators power left) (extend nested power rounds left) parser := by
  induction rounds generalizing parser left with
  | zero =>
    intro _
    rw [Nat.zero_add] at enough
    exact heavy_le_load enough
  | succ rounds ih =>
    simp only [Meets, extend, leads_bind, leads_rules, leads_current, standard]
    obtain ⟨later, eq⟩ := parser.tokens_eq_cons
    split
    · next notFound =>
      refine ⟨?_, .refl standard⟩
      rw [eq]
      refine .stop fun rule found => ?_
      rw [show Rules.standardInfix? parser.current.kind = none from notFound] at found
      cases found
    · next rule found =>
      have found : Rules.standardInfix? parser.current.kind = some rule := found
      have notEnd := ne_eof_of_infixRule found
      split
      · next tighter =>
        simp only [leads_bind, leads_descend, application, leads_advance, leads_pure]
        refine ⟨fun _ => ?_, fun tooDeep _ => ?_⟩
        · let deeper : Parser σ := { parser with depth := parser.depth + 1 }
          have passed : Reaches 0 parser deeper.passed := .descended standard notEnd rfl rfl
          refine (reliable rule.operandPower deeper.passed standard
            (Nat.le_succ_of_le deep)).after passed (Nat.le_refl _) ?_
          intro right middle operand reaches reached
          have below : parser.depth + 1 ≤ middle.depth := reaches.depth
          refine (ih middle (by omega) reached.rules (by omega)).after reached (Nat.le_refl _) ?_
          intro expr after operators _ reached'
          refine ⟨?_, reached'⟩
          rw [parser.tokens_of_ne_eof notEnd]
          exact .operator found tighter operand operators
        · exact heavy_le_load_of_ne_eof tooDeep notEnd
      · next notTighter =>
        refine ⟨?_, .refl standard⟩
        rw [eq]
        refine .stop fun rule' found' => ?_
        rw [found, Option.some.injEq] at found'
        exact found' ▸ notTighter

/-! ### Expressions -/

theorem chain_meets (reliable : Reliable nested (depth + 1)) {power : BindingPower}
    (deep : depth ≤ parser.depth) (standard : parser.rules = Rules.standard) :
    Meets 0 (.expression power) (chain nested power) parser := by
  simp only [Meets, chain, leads_bind, leads_rules, leads_current, standard]
  split
  · intro tooDeep
    rw [Token.isTooDeep_unexpected] at tooDeep
    cases tooDeep
  · next rule found =>
    have found : Rules.standardPrefix? parser.current.kind = some rule := found
    simp only [leads_bind, leads_descend, leads_write]
    refine ⟨fun _ => ?_, fun tooDeep _ => ?_⟩
    · let deeper : Parser σ :=
        { parser with
          depth := parser.depth + 1
          log := .operand parser.current.kind parser.current.start.offset :: parser.log }
      have deepened : deeper.load = parser.load + 1 := Nat.add_right_comm _ _ _
      refine (operand_meets reliable deeper (Nat.succ_le_succ deep) (Nat.succ_pos _)
        standard found).mono ?_ ?_
      · intro left middle both
        obtain ⟨operand, reaches⟩ := both
        have below : parser.depth + 1 ≤ middle.depth := reaches.depth
        have reached : Reaches 0 parser middle :=
          ⟨reaches.rules, Nat.le_of_succ_le below, by have load := reaches.load; omega⟩
        refine (extend_meets reliable middle (by omega) reached.rules
          (Nat.le_add_right _ _)).after reached (Nat.le_refl _) ?_
        intro expr after operators _ reached'
        exact ⟨.expression operand operators, reached'⟩
      · intro diagnostic _ refused tooDeep
        have bound := refused tooDeep
        omega
    · exact heavy_le_load_of_ne_eof tooDeep (ne_eof_of_prefixRule found)

/-- Expressions can be relied on from the depth on at which their rounds do not run out before the
depth does. -/
theorem expressionWithin_reliable (rounds depth : Nat) (enough : levels ≤ rounds + depth) :
    Reliable (σ := σ) (expressionWithin rounds) depth := by
  induction rounds generalizing depth with
  | zero =>
    intro power parser _ deep _
    rw [Nat.zero_add] at enough
    exact heavy_le_load (Nat.le_trans enough deep)
  | succ rounds ih =>
    intro power parser standard deep
    simp only [Meets, expressionWithin, leads_restoringDepth]
    refine (chain_meets (ih (depth + 1) (by omega)) deep standard).mono ?_
      fun _ _ refused => refused
    intro expr after both
    obtain ⟨reads, reaches⟩ := both
    refine ⟨reads, reaches.rules, Nat.le_refl _, Nat.le_trans ?_ reaches.load⟩
    exact Nat.add_le_add_right (Nat.add_le_add_right reaches.depth _) 0

theorem expression_meets (power : BindingPower) (standard : parser.rules = Rules.standard) :
    Meets 0 (.expression power) (expression power) parser :=
  expressionWithin_reliable levels 0 (Nat.le_refl _) power parser standard (Nat.zero_le _)

theorem reads_of_expression {power : BindingPower} {expr : Expr} {after : Parser σ}
    (standard : parser.rules = Rules.standard) (ran : expression power parser = .ok expr after) :
    Reads (.expression power) parser.tokens expr after.tokens ∧ after.rules = Rules.standard := by
  have meets := expression_meets power standard
  rw [Meets, Leads, ran] at meets
  exact ⟨meets.1, meets.2.rules⟩

end ParserM

end ExprCheck
