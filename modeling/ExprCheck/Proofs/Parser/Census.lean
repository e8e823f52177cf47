import ExprCheck.Proofs.Parser.Places
import ExprCheck.Proofs.Tree.Source

/-!
# What becomes of each token

A token of a program is kept by the tree, or it starts a node that does not keep it, or it is a
bracket or a word inside such a node:

* `Mark`: a sort of nodes with the tokens that start them, and `Mark.Fits`: every way of reading
  passes as many of these tokens as it makes such nodes. `Mark.conditional` and `Mark.block` are the
  two sorts of nodes that keep no token.
* `Tallies`: from some trees with the tokens after them to other trees with the tokens after those,
  there is a node of the mark for each of its tokens.
* `Reads.tallies`: this holds of every phrase. An operator takes the operand before it into a new
  tree, so the trees before the phrase count as well.
* `parse_conserves`: the account of all tokens of a program. Those that the tree keeps are in their
  order by `parse_sourced`.
-/

namespace ExprCheck

/-- A sort of nodes, and the kinds of token that each start one. -/
structure Mark where
  isNode : Expr → Bool
  isStart : TokenKind → Bool

namespace Mark

/-- How many nodes of this sort some trees have. -/
def nodes (mark : Mark) (trees : List Expr) : Nat :=
  (Tree.nodesAll trees).countP mark.isNode

/-- How many of some tokens start one. -/
def starts (mark : Mark) (tokens : List Token) : Nat :=
  tokens.countP fun token => mark.isStart token.kind

/-- Every way of reading passes a token of the mark just when it makes a node of the mark. -/
structure Fits (mark : Mark) : Prop where
  kept : ∀ {kind}, kind.isKept → mark.isStart kind = false
  inner : ∀ {kind}, kind ∈ [TokenKind.openParen, .closeParen, .closeCurly, .elseWord] →
    mark.isStart kind = false
  literal : ∀ {token}, mark.isNode (.literal () token) = false
  unary : ∀ {operator operand span}, mark.isNode (.unary () operator operand span) = false
  binary : ∀ {left operator right span}, mark.isNode (.binary () left operator right span) = false
  block : ∀ {items span}, mark.isNode (.block () items span) = mark.isStart .openCurly
  ifThen : ∀ {kind condition body span}, kind.IsConditional →
    mark.isNode (.ifThen () condition body span) = mark.isStart kind
  ifElse : ∀ {kind condition body otherwise span}, kind.IsConditional →
    mark.isNode (.ifElse () condition body otherwise span) = mark.isStart kind

/-- The conditionals, which start with a word that a condition follows. -/
def conditional : Mark :=
  ⟨Tree.isConditional, fun kind => kind = .ifWord || kind = .elsifWord⟩

/-- The blocks, which start with a curly bracket. -/
def block : Mark :=
  ⟨Tree.isBlock, fun kind => kind = .openCurly⟩

theorem conditional_fits : conditional.Fits where
  kept {kind} := by cases kind <;> decide
  inner {kind} := by cases kind <;> decide
  literal := rfl
  unary := rfl
  binary := rfl
  block := rfl
  ifThen isWord := by rcases isWord with rfl | rfl <;> rfl
  ifElse isWord := by rcases isWord with rfl | rfl <;> rfl

theorem block_fits : block.Fits where
  kept {kind} := by cases kind <;> decide
  inner {kind} := by cases kind <;> decide
  literal := rfl
  unary := rfl
  binary := rfl
  block := rfl
  ifThen isWord := by rcases isWord with rfl | rfl <;> rfl
  ifElse isWord := by rcases isWord with rfl | rfl <;> rfl

variable {mark : Mark}

/-! ### Counting -/

theorem starts_cons (token : Token) (tokens : List Token) :
    mark.starts (token :: tokens) = mark.starts tokens + (mark.isStart token.kind).toNat := by
  rw [starts, List.countP_cons, starts]
  cases mark.isStart token.kind <;> rfl

theorem nodes_nil : mark.nodes [] = 0 :=
  rfl

theorem nodes_cons (tree : Expr) (trees : List Expr) :
    mark.nodes (tree :: trees) = mark.nodes [tree] + mark.nodes trees := by
  simp only [nodes, Tree.nodesAll, List.append_nil, List.countP_append]

/-- A node and the nodes inside it. -/
theorem nodes_singleton (tree : Expr) :
    mark.nodes [tree] = mark.nodes tree.inner + (mark.isNode tree).toNat := by
  rw [nodes, Tree.nodesAll, Tree.nodesAll, List.append_nil, tree.nodes_eq_cons, List.countP_cons,
    nodes]
  cases mark.isNode tree <;> rfl

namespace Fits

variable (fits : mark.Fits)
include fits

theorem starts_of_isKept {token : Token} (h : token.kind.isKept) (tokens : List Token) :
    mark.starts (token :: tokens) = mark.starts tokens := by
  rw [starts_cons, fits.kept h]
  rfl

theorem starts_of_inner (token : Token)
    (h : token.kind ∈ [TokenKind.openParen, .closeParen, .closeCurly, .elseWord])
    (tokens : List Token) : mark.starts (token :: tokens) = mark.starts tokens := by
  rw [starts_cons, fits.inner h]
  rfl

theorem nodes_literal (token : Token) : mark.nodes [.literal () token] = 0 := by
  rw [nodes_singleton, fits.literal]
  rfl

theorem nodes_unary (operator : Token) (operand : Expr) (span : Span) :
    mark.nodes [.unary () operator operand span] = mark.nodes [operand] := by
  rw [nodes_singleton, fits.unary]
  rfl

theorem nodes_binary (left : Expr) (operator : Token) (right : Expr) (span : Span) :
    mark.nodes [.binary () left operator right span] = mark.nodes [left] + mark.nodes [right] := by
  rw [nodes_singleton, fits.binary, Tree.inner, nodes_cons]
  rfl

theorem nodes_block (items : List Expr) (span : Span) :
    mark.nodes [.block () items span] =
      mark.nodes items + (mark.isStart .openCurly).toNat := by
  rw [nodes_singleton, fits.block, Tree.inner]

theorem nodes_ifThen {word : TokenKind} (isWord : word.IsConditional) (condition body : Expr)
    (span : Span) :
    mark.nodes [.ifThen () condition body span] =
      mark.nodes [condition] + mark.nodes [body] + (mark.isStart word).toNat := by
  rw [nodes_singleton, fits.ifThen isWord, Tree.inner, nodes_cons]

theorem nodes_ifElse {word : TokenKind} (isWord : word.IsConditional)
    (condition body otherwise : Expr) (span : Span) :
    mark.nodes [.ifElse () condition body otherwise span] =
      mark.nodes [condition] + mark.nodes [body] + mark.nodes [otherwise] +
        (mark.isStart word).toNat := by
  rw [nodes_singleton, fits.ifElse isWord, Tree.inner, nodes_cons, nodes_cons body]
  omega

end Fits

end Mark

/-! ### Every phrase -/

/-- The trees `earlier` and the tokens `tokens` have become the trees `trees` and the tokens `rest`,
with a node of the mark for each token of the mark. -/
def Tallies (mark : Mark) (earlier : List Expr) (tokens : List Token) (trees : List Expr)
    (rest : List Token) : Prop :=
  mark.nodes earlier + mark.starts tokens = mark.nodes trees + mark.starts rest

variable {mark : Mark} {tokens rest : List Token}

/-- The account of a phrase. A conditional has to start with a word for one. -/
def Phrase.IsTallied (mark : Mark) (tokens : List Token) (expr : Expr) (rest : List Token) :
    Phrase → Prop
  | .expression _ | .operand | .block => Tallies mark [] tokens [expr] rest
  | .operators _ left => Tallies mark [left] tokens [expr] rest
  | .branch => (∀ word ∈ tokens.head?, word.kind.IsConditional) → Tallies mark [] tokens [expr] rest

theorem Row.tallies {items : List Expr}
    (h : Row (fun tokens item rest => Tallies mark [] tokens [item] rest) tokens items rest) :
    Tallies mark [] tokens items rest := by
  induction h with
  | nil => rfl
  | cons first _ ih =>
    simp only [Tallies, Mark.nodes_nil] at first ih ⊢
    rw [Mark.nodes_cons]
    omega

/-- As many tokens of the mark are passed as nodes of the mark are made. -/
theorem Reads.tallies (fits : mark.Fits) {phrase : Phrase} {expr : Expr}
    (h : Reads phrase tokens expr rest) : phrase.IsTallied mark tokens expr rest := by
  induction h using Reads.induct with
  | expression _ _ first later =>
    simp only [Phrase.IsTallied, Tallies, Mark.nodes_nil] at first later ⊢
    omega
  | literal isLiteral =>
    have isKept := TokenKind.isKept_of_isLiteral isLiteral
    simp only [Phrase.IsTallied, Tallies, Mark.nodes_nil, fits.nodes_literal,
      fits.starts_of_isKept isKept]
  | sign isSign _ ih =>
    have isKept := TokenKind.isKept_of_standardInfix? (Rules.standardInfix?_of_isSign isSign)
    simp only [Phrase.IsTallied, Tallies, Mark.nodes_nil, fits.nodes_unary,
      fits.starts_of_isKept isKept] at ih ⊢
    exact ih
  | @group opening closing _ _ _ isOpening _ isClosing ih =>
    have opens := fits.starts_of_inner opening (by rw [isOpening]; decide)
    have closes := fits.starts_of_inner closing (by rw [isClosing]; decide)
    simp only [Phrase.IsTallied, Tallies, opens, closes] at ih ⊢
    exact ih
  | blockOperand _ ih => exact ih
  | branchOperand isWord _ ih => exact ih (by rintro _ ⟨⟩; exact .inl isWord)
  | stop _ => rfl
  | operator found _ _ _ right later =>
    have isKept := TokenKind.isKept_of_standardInfix? found
    simp only [Phrase.IsTallied, Tallies, Mark.nodes_nil, fits.nodes_binary,
      fits.starts_of_isKept isKept] at right later ⊢
    omega
  | @block opening closing _ _ _ isOpening _ isClosing items =>
    have closes := fits.starts_of_inner closing (by rw [isClosing]; decide)
    have inside := (items.mono fun _ _ _ read => read.elim fun _ tallied => tallied).tallies
    simp only [Phrase.IsTallied, Tallies, Mark.nodes_nil, fits.nodes_block, Mark.starts_cons,
      isOpening, closes] at inside ⊢
    omega
  | ifThen _ _ _ _ first second =>
    intro isWord
    simp only [Phrase.IsTallied, Tallies, Mark.nodes_nil, Mark.starts_cons,
      fits.nodes_ifThen (isWord _ rfl)] at first second ⊢
    omega
  | @ifElse _ _ _ _ _ next _ _ _ _ _ isElse _ first second third =>
    intro isWord
    have joins := fits.starts_of_inner next (by rw [isElse]; decide)
    rw [Tallies, Mark.starts_cons, fits.nodes_ifElse (isWord _ rfl)]
    simp only [Phrase.IsTallied, Tallies, Mark.nodes_nil, joins] at first second third ⊢
    omega
  | ifElsif _ _ isElsif _ first second third =>
    intro isWord
    have third := third (by rintro _ ⟨⟩; exact .inr isElsif)
    simp only [Phrase.IsTallied, Tallies, Mark.nodes_nil, Mark.starts_cons,
      fits.nodes_ifElse (isWord _ rfl)] at first second third ⊢
    omega

/-! ### Programs -/

/-- The tree of a program is a block that no token starts. -/
theorem parse_tallies {tokens : List Token} (h : ∀ token ∈ tokens.dropLast, token.kind ≠ .eof)
    {expr : Expr} (fits : mark.Fits) (notEnd : mark.isStart .eof = false)
    (ok : (parse (TokenStream.ofTokens tokens)).result = .ok expr) :
    expr.isBlock ∧ expr.nodes.tail.countP mark.isNode = mark.starts tokens := by
  obtain ⟨items, last, isEnd, row, rfl⟩ := parse_sound ok
  have all := (row.mono fun _ _ _ reads => reads.tallies fits).tallies
  have noStart : mark.starts [last] = 0 := by
    rw [Mark.starts_cons, isEnd, notEnd]
    rfl
  have given : mark.starts (TokenStream.closed tokens) = mark.starts tokens := by
    have notStart : ∀ token : Token, token.kind = .eof → mark.isStart token.kind = false := by
      intro token isEnd
      rw [isEnd, notEnd]
    rw [Mark.starts, Mark.starts, List.countP_eq_length_filter, List.countP_eq_length_filter,
      TokenStream.filter_closed tokens notStart]
  rw [TokenStream.tokens_ofTokens_eq_closed h, Tallies, Mark.nodes_nil, noStart, given,
    Nat.zero_add, Nat.add_zero] at all
  exact ⟨rfl, all.symm⟩

/-- No token is lost, made or moved. A tree that is read from tokens of which only the last may end
the input has, in their order and as they are, the literals and operators among them. It has a
conditional for each word that a condition follows and, inside its root, a block for each curly
bracket that opens one. -/
theorem parse_conserves {tokens : List Token} (h : ∀ token ∈ tokens.dropLast, token.kind ≠ .eof)
    {expr : Expr} (ok : (parse (TokenStream.ofTokens tokens)).result = .ok expr) :
    expr.inOrder = tokens.filter (fun token =>
        token.kind.isLiteral || token.kind ∈ Rules.binaryOperators) ∧
      expr.nodes.countP Tree.isConditional =
        tokens.countP (fun token => token.kind = .ifWord || token.kind = .elsifWord) ∧
      expr.isBlock ∧ expr.nodes.tail.countP Tree.isBlock =
        tokens.countP (fun token => token.kind = .openCurly) := by
  obtain ⟨isBlock, conditionals⟩ := parse_tallies h Mark.conditional_fits rfl ok
  obtain ⟨-, blocks⟩ := parse_tallies h Mark.block_fits rfl ok
  refine ⟨?_, ?_, isBlock, blocks⟩
  · have notKept : ∀ token : Token, token.kind = .eof → token.kind.isKept = false := by
      intro token isEnd
      rw [isEnd]
      decide
    rw [(parse_sourced ok).inOrder, TokenStream.tokens_ofTokens_eq_closed h]
    exact TokenStream.filter_closed tokens notKept
  · -- The root is a block and so no conditional.
    cases expr with
    | block => exact conditionals
    | _ => cases isBlock

/-- A conditional with three branches, an operator behind it that continues it, and a block in a
block. -/
theorem parse_conserves_nested :
    let tokens : List Token :=
      ([.ifWord, .trueWord, .openCurly, .dash, .openParen, .integer, .caret, .dash, .float,
        .closeParen, .closeCurly, .elsifWord, .identifier, .openCurly, .closeCurly, .elseWord,
        .openCurly, .openCurly, .string, .char, .closeCurly, .closeCurly, .assignment, .falseWord,
        .integer, .eof] : List TokenKind).zipIdx.map fun entry =>
          ⟨entry.1, entry.1.display, Span.empty ⟨UInt32.ofNat entry.2, "shell"⟩⟩
    (∀ token ∈ tokens.dropLast, token.kind ≠ .eof) ∧
      ∃ expr, (parse (TokenStream.ofTokens tokens)).result = .ok expr ∧
        expr.inOrder.map (fun token => token.start.offset.toNat) =
          [1, 3, 5, 6, 7, 8, 12, 18, 19, 22, 23, 24] ∧
        expr.nodes.countP Tree.isConditional = 2 ∧
        expr.isBlock ∧ expr.nodes.tail.countP Tree.isBlock = 4 := by
  intro tokens
  have noEnd : ∀ token ∈ tokens.dropLast, token.kind ≠ .eof := by decide
  have accepted : (parse (TokenStream.ofTokens tokens)).result.isOk = true := by decide +kernel
  obtain ⟨expr, ok⟩ := exists_ok_of_isOk accepted
  obtain ⟨inOrder, conditionals, isBlock, blocks⟩ := parse_conserves noEnd ok
  refine ⟨noEnd, expr, ok, ?_, conditionals.trans (by decide), isBlock, blocks.trans (by decide)⟩
  rw [inOrder]
  decide

end ExprCheck
