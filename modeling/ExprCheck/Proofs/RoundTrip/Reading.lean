import ExprCheck.Proofs.Parser.Entry
import ExprCheck.Proofs.Parser.Follow
import ExprCheck.Proofs.RoundTrip.Text

/-!
# The source text of a tree is read as the tree

* `ReadsAs`: some tokens are read as a tree that differs from a given one in its places at most.
* `Restored expr`: the tokens of `expr` are read as `expr`, wherever they stand.
* `Restored.of_wellFormed`: this holds of every well-formed tree. Brackets around every operation
  leave the parser no choice of operands, and no element of a block starts with an operator.
* `parseExpression_source`: reading the text of a tree gives the tree back.
-/

namespace ExprCheck

open ExprCheck.Expr (tokensAs tokensAll)

/-- The tokens are read as a tree that differs from the given one in its places at most. -/
def ReadsAs (phrase : Phrase) (tokens : List Token) (expr : Expr) (rest : List Token) : Prop :=
  ∃ read, Reads phrase tokens read rest ∧ read.unplaced = expr.unplaced

/-- The tokens of a tree are read as this tree, as an operand and as what else it can be. -/
structure Restored (expr : Expr) : Prop where
  stops : ∀ {tokens}, tokens.map Token.unplaced = tokensAs .ifWord expr → Stops tokens
  operand : ∀ {tokens rest}, tokens.map Token.unplaced = tokensAs .ifWord expr → EndsChain rest →
    ReadsAs .operand (tokens ++ rest) expr rest
  block : expr.isBlock → ∀ {tokens rest}, tokens.map Token.unplaced = tokensAs .ifWord expr →
    ReadsAs .block (tokens ++ rest) expr rest
  branch : expr.isConditional → ∀ {word tokens rest},
    tokens.map Token.unplaced = tokensAs word expr → EndsChain rest →
    ReadsAs .branch (tokens ++ rest) expr rest

theorem Token.kind_of_unplaced {token : Token} {kind : TokenKind}
    (h : token.unplaced = kind.token) : token.kind = kind :=
  congrArg Token.kind h

theorem Token.kind_eq_of_unplaced {token token' : Token} (h : token.unplaced = token'.unplaced) :
    token.kind = token'.kind := by
  have kinds := congrArg Token.kind h
  exact kinds

/-- Tokens between an opening and a closing one. -/
theorem enclosed {tokens inner : List Token} {opening closing : TokenKind}
    (h : tokens.map Token.unplaced = opening.token :: (inner ++ [closing.token])) :
    ∃ first middle last, tokens = first :: (middle ++ [last]) ∧ first.kind = opening ∧
      middle.map Token.unplaced = inner ∧ last.kind = closing := by
  obtain ⟨first, tokens, rfl, isOpening, eq⟩ := List.map_eq_cons_iff.1 h
  obtain ⟨middle, tokens, rfl, isMiddle, eq⟩ := List.map_eq_append_iff.1 eq
  obtain ⟨last, rfl, isClosing⟩ := List.map_eq_singleton_iff.1 eq
  exact ⟨first, middle, last, rfl, Token.kind_of_unplaced isOpening, isMiddle,
    Token.kind_of_unplaced isClosing⟩

namespace Restored

theorem expression {expr : Expr} (h : Restored expr) {tokens rest : List Token}
    (eq : tokens.map Token.unplaced = tokensAs .ifWord expr) (stops : Stops rest)
    (power : BindingPower) : ReadsAs (.expression power) (tokens ++ rest) expr rest := by
  obtain ⟨read, reads, same⟩ := h.operand eq stops.endsChain
  exact ⟨read, reads.alone stops power, same⟩

/-- A tree whose tokens are those of an expression in brackets. -/
theorem of_group {expr : Expr} {inner : List Token}
    (isGroup : tokensAs .ifWord expr =
      TokenKind.openParen.token :: (inner ++ [TokenKind.closeParen.token]))
    (notBlock : expr.isBlock = false) (notConditional : expr.isConditional = false)
    (reads : ∀ {tokens rest}, tokens.map Token.unplaced = inner → Stops rest →
      ReadsAs (.expression .lowest) (tokens ++ rest) expr rest) : Restored expr where
  stops := by
    intro tokens eq
    rw [isGroup] at eq
    obtain ⟨first, middle, last, rfl, isOpening, -, -⟩ := enclosed eq
    exact .of_kind isOpening (by decide) _
  operand := by
    intro tokens rest eq _
    rw [isGroup] at eq
    obtain ⟨first, middle, last, rfl, isOpening, isInner, isClosing⟩ := enclosed eq
    obtain ⟨read, inside, same⟩ := reads isInner (.of_kind isClosing (by decide) rest)
    refine ⟨read, ?_, same⟩
    rw [List.cons_append, List.append_assoc]
    exact .group isOpening inside isClosing
  block := fun isBlock => absurd isBlock (by simp [notBlock])
  branch := fun isConditional => absurd isConditional (by simp [notConditional])

theorem of_literal {token : Token} (isLiteral : token.kind.isLiteral) :
    Restored (.literal () token) where
  stops := by
    intro tokens eq
    obtain ⟨placed, rfl, same⟩ := List.map_eq_singleton_iff.1 eq
    exact .of_kind (Token.kind_eq_of_unplaced same) (TokenKind.closes_of_isLiteral isLiteral) []
  operand := by
    intro tokens rest eq _
    obtain ⟨placed, rfl, same⟩ := List.map_eq_singleton_iff.1 eq
    refine ⟨.literal () placed, .literal ?_, ?_⟩
    · rwa [Token.kind_eq_of_unplaced same]
    · rw [Tree.unplaced, Tree.unplaced, same]
  block := fun isBlock => absurd isBlock Bool.false_ne_true
  branch := fun isConditional => absurd isConditional Bool.false_ne_true

theorem of_unary {operator : Token} {operand : Expr} {span : Span}
    (isSign : operator.kind = .plus ∨ operator.kind = .dash) (h : Restored operand) :
    Restored (.unary () operator operand span) := by
  refine of_group rfl rfl rfl ?_
  intro tokens rest eq stops
  obtain ⟨sign, inner, rfl, isOperator, isOperand⟩ := List.map_eq_cons_iff.1 eq
  obtain ⟨read, reads, same⟩ := h.expression isOperand stops .additive
  rw [← Token.kind_eq_of_unplaced isOperator] at isSign
  refine ⟨_, Reads.alone (.sign isSign reads) stops .lowest, ?_⟩
  rw [Tree.unplaced, Tree.unplaced, isOperator, same]

theorem of_binary {left right : Expr} {operator : Token} {span : Span}
    (mem : operator.kind ∈ Rules.binaryOperators) (isLeft : Restored left)
    (isRight : Restored right) : Restored (.binary () left operator right span) := by
  refine of_group rfl rfl rfl ?_
  intro tokens rest eq stops
  obtain ⟨first, tokens, rfl, isFirst, eq⟩ := List.map_eq_append_iff.1 eq
  obtain ⟨sign, second, rfl, isOperator, isSecond⟩ := List.map_eq_cons_iff.1 eq
  rw [← Token.kind_eq_of_unplaced isOperator] at mem
  obtain ⟨rule, found⟩ := Option.isSome_iff_exists.1 ((Rules.mem_binaryOperators_iff _).1 mem)
  obtain ⟨read, reads, same⟩ := isLeft.operand isFirst (.of_operator mem (second ++ rest))
  obtain ⟨read', reads', same'⟩ := isRight.expression isSecond stops rule.operandPower
  have later := Reads.operator found (Rules.lowest_lt_of_standardInfix? found) reads'
    (.stop_of_stops stops .lowest (.binary () read sign read' ⟨read.span.start, read'.span.stop⟩))
  refine ⟨.binary () read sign read' ⟨read.span.start, read'.span.stop⟩, ?_, ?_⟩
  · rw [List.append_assoc, List.cons_append]
    exact .expression reads later
  · rw [Tree.unplaced, Tree.unplaced, isOperator, same, same']

/-! ### Blocks -/

/-- The elements of a block are read one after the other, since none of them starts with what could
go on with the one before it. -/
theorem row {items : List Expr} (each : ∀ item ∈ items, Restored item) {tokens rest : List Token}
    (eq : tokens.map Token.unplaced = tokensAll items) (stops : Stops rest) :
    Stops (tokens ++ rest) ∧ ∃ read, Row (Reads (.expression .lowest)) (tokens ++ rest) read rest ∧
      Tree.unplacedAll read = Tree.unplacedAll items := by
  induction items generalizing tokens with
  | nil =>
    obtain rfl := List.map_eq_nil_iff.1 eq
    exact ⟨stops, [], .nil, rfl⟩
  | cons item items ih =>
    obtain ⟨first, later, rfl, isFirst, isLater⟩ := List.map_eq_append_iff.1 eq
    have isItem := each item List.mem_cons_self
    obtain ⟨stopsLater, read, row, same⟩ :=
      ih (fun other mem => each other (List.mem_cons_of_mem _ mem)) isLater
    obtain ⟨readItem, reads, sameItem⟩ := isItem.expression isFirst stopsLater .lowest
    rw [List.append_assoc]
    refine ⟨(isItem.stops isFirst).append _, readItem :: read, .cons reads row, ?_⟩
    rw [Tree.unplacedAll, Tree.unplacedAll, sameItem, same]

theorem of_block {items : List Expr} {span : Span} (each : ∀ item ∈ items, Restored item) :
    Restored (.block () items span) := by
  have block : ∀ {tokens rest : List Token},
      tokens.map Token.unplaced = tokensAs .ifWord (.block () items span) →
      ReadsAs .block (tokens ++ rest) (.block () items span) rest := by
    intro tokens rest eq
    obtain ⟨first, middle, last, rfl, isOpening, isInner, isClosing⟩ := enclosed eq
    obtain ⟨-, read, row, same⟩ := row each isInner (.of_kind isClosing (by decide) rest)
    refine ⟨.block () read ⟨first.span.start, last.span.stop⟩, ?_, ?_⟩
    · rw [List.cons_append, List.append_assoc]
      exact .block isOpening row isClosing
    · rw [Tree.unplaced, Tree.unplaced, same]
  refine ⟨?_, ?_, fun _ => block, fun isConditional => absurd isConditional Bool.false_ne_true⟩
  · intro tokens eq
    obtain ⟨first, middle, last, rfl, isOpening, -, -⟩ := enclosed eq
    exact .of_kind isOpening (by decide) _
  · intro tokens rest eq _
    obtain ⟨read, reads, same⟩ := block eq
    exact ⟨read, .blockOperand reads, same⟩

/-! ### Conditionals -/

theorem tokensAs_of_isConditional {expr : Expr} (h : expr.isConditional) (word : TokenKind) :
    ∃ later, tokensAs word expr = word.token :: later := by
  cases expr with
  | ifThen _ condition body _ => exact ⟨_, by rw [tokensAs]⟩
  | ifElse _ condition body otherwise _ => exact ⟨_, by rw [tokensAs]⟩
  | _ => cases h

/-- A conditional whose tokens from any first word on are read as it. -/
theorem of_branch {expr : Expr} (isConditional : expr.isConditional) (notBlock : ¬ expr.isBlock)
    (branch : ∀ {word tokens rest}, tokens.map Token.unplaced = tokensAs word expr →
      EndsChain rest → ReadsAs .branch (tokens ++ rest) expr rest) : Restored expr where
  stops := by
    intro tokens eq
    obtain ⟨later, starts⟩ := tokensAs_of_isConditional isConditional .ifWord
    rw [starts] at eq
    obtain ⟨first, tokens, rfl, isWord, -⟩ := List.map_eq_cons_iff.1 eq
    exact .of_kind (Token.kind_of_unplaced isWord) (by decide) tokens
  operand := by
    intro tokens rest eq ends
    obtain ⟨read, reads, same⟩ := branch eq ends
    obtain ⟨later, starts⟩ := tokensAs_of_isConditional isConditional .ifWord
    rw [starts] at eq
    obtain ⟨first, tokens, rfl, isWord, -⟩ := List.map_eq_cons_iff.1 eq
    exact ⟨read, .branchOperand (Token.kind_of_unplaced isWord) reads, same⟩
  block := fun isBlock => absurd isBlock notBlock
  branch := fun _ => branch

/-- The first word, the condition and the body of a conditional, before what follows them. -/
theorem clause {condition body : Expr} (isCondition : Restored condition) (isBody : Restored body)
    (isBlock : body.isBlock) {word : TokenKind} {tokens others : List Token}
    (eq : tokens.map Token.unplaced =
      word.token :: (tokensAs .ifWord condition ++ (tokensAs .ifWord body ++ others))) :
    ∃ first inner later, tokens = first :: inner ∧ later.map Token.unplaced = others ∧
      ∀ rest, ∃ middle, ReadsAs (.expression .lowest) (inner ++ rest) condition middle ∧
        ReadsAs .block middle body (later ++ rest) := by
  obtain ⟨first, tokens, rfl, -, eq⟩ := List.map_eq_cons_iff.1 eq
  obtain ⟨before, tokens, rfl, isBefore, eq⟩ := List.map_eq_append_iff.1 eq
  obtain ⟨middle, later, rfl, isMiddle, isLater⟩ := List.map_eq_append_iff.1 eq
  refine ⟨first, before ++ (middle ++ later), later, rfl, isLater, ?_⟩
  intro rest
  refine ⟨middle ++ (later ++ rest), ?_, isBody.block isBlock isMiddle⟩
  rw [List.append_assoc, List.append_assoc]
  exact isCondition.expression isBefore ((isBody.stops isMiddle).append _) .lowest

theorem of_ifThen {condition body : Expr} {span : Span} (isCondition : Restored condition)
    (isBody : Restored body) (isBlock : body.isBlock) :
    Restored (.ifThen () condition body span) := by
  refine of_branch rfl Bool.false_ne_true ?_
  intro word tokens rest eq ends
  rw [tokensAs, ← List.append_nil (tokensAs .ifWord body)] at eq
  obtain ⟨first, inner, later, rfl, isLater, reads⟩ := clause isCondition isBody isBlock eq
  obtain rfl := List.map_eq_nil_iff.1 isLater
  obtain ⟨middle, ⟨condition', isFirst, same⟩, body', isSecond, same'⟩ := reads rest
  obtain ⟨next, later, rfl, notElsif, notElse⟩ := ends
  refine ⟨.ifThen () condition' body' ⟨first.span.start, body'.span.stop⟩,
    .ifThen isFirst isSecond notElsif notElse, ?_⟩
  rw [Tree.unplaced, Tree.unplaced, same, same']

theorem of_ifElse {condition body otherwise : Expr} {span : Span}
    (isCondition : Restored condition) (isBody : Restored body) (isBlock : body.isBlock)
    (isOtherwise : Restored otherwise)
    (isBranch : otherwise.isBlock ∨ otherwise.isConditional) :
    Restored (.ifElse () condition body otherwise span) := by
  refine of_branch rfl Bool.false_ne_true ?_
  intro word tokens rest eq ends
  rw [tokensAs] at eq
  obtain ⟨first, inner, later, rfl, isLater, reads⟩ := clause isCondition isBody isBlock eq
  obtain ⟨middle, ⟨condition', isFirst, same⟩, body', isSecond, same'⟩ := reads rest
  by_cases isConditional : otherwise.isConditional
  · rw [if_pos isConditional] at isLater
    obtain ⟨otherwise', isThird, same''⟩ := isOtherwise.branch isConditional isLater ends
    obtain ⟨arms, starts⟩ := tokensAs_of_isConditional isConditional .elsifWord
    rw [starts] at isLater
    obtain ⟨next, later, rfl, isElsif, -⟩ := List.map_eq_cons_iff.1 isLater
    refine ⟨.ifElse () condition' body' otherwise' ⟨first.span.start, otherwise'.span.stop⟩,
      .ifElsif isFirst isSecond (Token.kind_of_unplaced isElsif) isThird, ?_⟩
    rw [Tree.unplaced, Tree.unplaced, same, same', same'']
  · rw [if_neg isConditional] at isLater
    obtain ⟨next, later, rfl, isElse, isOther⟩ := List.map_eq_cons_iff.1 isLater
    obtain ⟨otherwise', isThird, same''⟩ :=
      isOtherwise.block (isBranch.resolve_right isConditional) isOther
    refine ⟨.ifElse () condition' body' otherwise' ⟨first.span.start, otherwise'.span.stop⟩,
      .ifElse isFirst isSecond (Token.kind_of_unplaced isElse) isThird, ?_⟩
    rw [Tree.unplaced, Tree.unplaced, same, same', same'']

/-- The tokens of a well-formed tree are read as this tree. -/
theorem of_wellFormed {expr : Expr} (h : expr.WellFormed) : Restored expr := by
  induction h with
  | literal isLiteral _ => exact of_literal isLiteral
  | unary isSign _ _ ih => exact of_unary isSign ih
  | binary mem _ _ _ ihLeft ihRight => exact of_binary mem ihLeft ihRight
  | ifThen _ isBlock _ ihCondition ihBody => exact of_ifThen ihCondition ihBody isBlock
  | ifElse _ isBlock _ isBranch _ ihCondition ihBody ihOtherwise =>
    exact of_ifElse ihCondition ihBody isBlock ihOtherwise isBranch
  | block _ ih => exact of_block ih

end Restored

/-! ### Sources -/

/-- Reading the text of a well-formed tree gives the tree back up to its places, unless it is
refused as too deep. A text of at most `maxNestingDepth` tokens is never refused. Without a
conditional in the other branch of a conditional, the text is the one displayed. -/
theorem parseExpression_source {expr : Expr} (h : expr.WellFormed) (file : String) :
    (∃ read, read.unplaced = expr.unplaced ∧
        (parseExpression (Scanner.ofSource expr.source file)).IsTreeOrTooDeep read) ∧
      ((TokenSource.tokens (Scanner.ofSource expr.source file)).dropLast.length ≤ maxNestingDepth →
        ∃ read, read.unplaced = expr.unplaced ∧
          (parseExpression (Scanner.ofSource expr.source file)).result = .ok read) ∧
      ((∀ node ∈ expr.nodes, node.goesOn = false) → expr.source = expr.display) := by
  obtain ⟨placed, last, tokens, isEnd, same⟩ := (Scans.source h).tokens_ofSource file
  have stops : Stops [last] := .of_kind isEnd (by decide) []
  obtain ⟨read, reads, restored⟩ := (Restored.of_wellFormed h).expression same stops .lowest
  rw [← tokens] at reads
  refine ⟨⟨read, restored, parseExpression_complete isEnd reads⟩,
    fun few => ⟨read, restored, parseExpression_ok isEnd reads ?_⟩, Expr.source_eq_display⟩
  rw [List.length_dropLast] at few
  omega

/-- A conditional in the other branch of a conditional comes back as it was. -/
theorem parseExpression_source_elsif :
    let word : TokenKind → Expr := fun kind => .literal () ⟨kind, kind.display, Span.nowhere⟩
    let empty : Expr := .block () [] Span.nowhere
    let expr : Expr := .ifElse () (word .trueWord) empty
      (.ifThen () (word .falseWord) empty Span.nowhere) Span.nowhere
    expr.WellFormed ∧ expr.source = "if true {} elsif false {}" ∧
      ∃ read, read.unplaced = expr.unplaced ∧
        (parseExpression (Scanner.ofSource expr.source "shell")).result = .ok read := by
  intro word empty expr
  have isEmpty : empty.WellFormed := .block fun _ mem => absurd mem List.not_mem_nil
  have isTrue : (word .trueWord).WellFormed := .literal rfl ⟨"", _, _, rfl, rfl⟩
  have isFalse : (word .falseWord).WellFormed := .literal rfl ⟨"", _, _, rfl, rfl⟩
  have wellFormed : expr.WellFormed :=
    .ifElse isTrue rfl isEmpty (.inr rfl) (.ifThen isFalse rfl isEmpty)
  refine ⟨wellFormed, by decide, ?_⟩
  exact (parseExpression_source wellFormed "shell").2.1 (by decide +kernel)

end ExprCheck
