import ExprCheck.Proofs.Parser.Places
import ExprCheck.Tree.Equality

/-!
# Chains with signs before the operands

A sign takes what binds tighter than a sum as its operand, whatever operator stands before the sign.
In a chain of operators and literals with signs this decides what the right operand of an operator
takes in:

* `SignedLiteral`, `SignedLink`: a literal behind signs, and an operator and such a literal.
* `Reads.takes_or_leaves`: a signed literal takes in the operator behind it if that operator binds
  tighter than the power at which the literal is read, or if there is a sign and it binds tighter
  than a sum.
* `Expr.IsReadFrom.operator_at`: an operator behind a literal has a node, which applies it.
* `parseExpression_signedChain`: of two operators of a chain of which the second binds no tighter
  and the first does not nest to the right, the second is in the right operand of the first if and
  only if there is a sign between them and the second binds tighter than a sum.
* `parseExpression_signedQuotient`: a quotient with a sign whose right operand takes in a product.
-/

namespace ExprCheck

/-! ### Chains -/

/-- A literal behind signs. -/
structure SignedLiteral where
  signs : List Token
  literal : Token

namespace SignedLiteral

/-- The signs and the literal. -/
def tokens (operand : SignedLiteral) : List Token :=
  operand.signs ++ [operand.literal]

/-- What stands before the literal are signs. -/
structure IsSigned (operand : SignedLiteral) : Prop where
  areSigns : ∀ sign ∈ operand.signs, sign.kind = .plus ∨ sign.kind = .dash
  isLiteral : operand.literal.kind.isLiteral

theorem IsSigned.endsInLiteral {operand : SignedLiteral} (h : operand.IsSigned)
    (before : List Token) : EndsInLiteral (before ++ operand.tokens) := by
  refine ⟨operand.literal, ?_, h.isLiteral⟩
  rw [tokens, ← List.append_assoc, List.getLast?_concat]
  rfl

end SignedLiteral

/-- An operator and the operand after it. -/
structure SignedLink where
  operator : Token
  operand : SignedLiteral

namespace SignedLink

/-- The operator and the operand. -/
def tokens (link : SignedLink) : List Token :=
  link.operator :: link.operand.tokens

/-- Operators and operands as tokens. -/
def spread (links : List SignedLink) : List Token :=
  links.flatMap tokens

/-- How tightly the operator binds. -/
def power (link : SignedLink) : BindingPower :=
  Rules.standard.powerOf link.operator.kind

/-- An operator between two operands, and a signed literal. -/
structure IsLink (link : SignedLink) : Prop where
  isOperator : link.operator.kind ∈ Rules.binaryOperators
  isSigned : link.operand.IsSigned

theorem spread_append (links links' : List SignedLink) :
    spread (links ++ links') = spread links ++ spread links' :=
  List.flatMap_append

theorem spread_cons (link : SignedLink) (links : List SignedLink) :
    spread (link :: links) = link.tokens ++ spread links :=
  List.flatMap_cons

theorem IsLink.rule {link : SignedLink} (h : link.IsLink) :
    ∃ rule, Rules.standardInfix? link.operator.kind = some rule ∧ rule.power = link.power := by
  obtain ⟨rule, found⟩ := Option.isSome_iff_exists.1 ((Rules.mem_binaryOperators_iff _).1
    h.isOperator)
  exact ⟨rule, found, (Rules.powerOf_of_standardInfix? found).symm⟩

end SignedLink

/-! ### What an operand takes in -/

namespace Reads

variable {power : BindingPower} {next : Token} {rule : InfixRule} {later rest : List Token}
  {expr : Expr}

theorem operators_take_or_leave {left : Expr} (found : Rules.standardInfix? next.kind = some rule)
    (h : Reads (.operators power left) (next :: later) expr rest) :
    power < rule.power ∧ rest.length ≤ later.length ∨
      ¬ power < rule.power ∧ rest = next :: later := by
  cases h with
  | stop stops => exact .inr ⟨stops rule found, rfl⟩
  | operator found' tighter operand others =>
    obtain rfl := Option.some.inj (found.symm.trans found')
    have fewer := operand.length_le
    have fewer' := others.length_le
    simp only [Phrase.least] at fewer fewer'
    exact .inl ⟨tighter, by omega⟩

theorem eq_of_literal {token : Token} {tokens : List Token} (isLiteral : token.kind.isLiteral)
    (h : Reads .operand (token :: tokens) expr rest) : rest = tokens := by
  cases h with
  | literal _ => rfl
  | sign isSign => rcases isSign with eq | eq <;> rw [eq] at isLiteral <;> cases isLiteral
  | group isOpening =>
    rw [isOpening] at isLiteral
    cases isLiteral
  | blockOperand inner =>
    cases inner with
    | block isOpening =>
      rw [isOpening] at isLiteral
      cases isLiteral
  | branchOperand isWord =>
    rw [isWord] at isLiteral
    cases isLiteral

theorem operand_of_sign {sign : Token} {tokens : List Token}
    (isSign : sign.kind = .plus ∨ sign.kind = .dash)
    (h : Reads .operand (sign :: tokens) expr rest) :
    ∃ operand, Reads (.expression .additive) tokens operand rest := by
  cases h with
  | literal isLiteral => rcases isSign with eq | eq <;> rw [eq] at isLiteral <;> cases isLiteral
  | sign _ inner => exact ⟨_, inner⟩
  | group isOpening => rcases isSign with eq | eq <;> cases eq.symm.trans isOpening
  | blockOperand inner =>
    cases inner with
    | block isOpening => rcases isSign with eq | eq <;> cases eq.symm.trans isOpening
  | branchOperand isWord => rcases isSign with eq | eq <;> cases eq.symm.trans isWord

/-- A signed literal takes in the operator behind it if the operator binds tighter than its power,
or if there is a sign and the operator binds tighter than a sum. If not, it ends there. -/
theorem takes_or_leaves {signs : List Token} {literal : Token}
    (areSigns : ∀ sign ∈ signs, sign.kind = .plus ∨ sign.kind = .dash)
    (isLiteral : literal.kind.isLiteral) (found : Rules.standardInfix? next.kind = some rule)
    (h : Reads (.expression power) (signs ++ literal :: next :: later) expr rest) :
    (power < rule.power ∨ signs ≠ [] ∧ .additive < rule.power) ∧ rest.length ≤ later.length ∨
      ¬ (power < rule.power ∨ signs ≠ [] ∧ .additive < rule.power) ∧ rest = next :: later := by
  induction signs generalizing power expr rest with
  | nil =>
    cases h with
    | expression first others =>
      obtain rfl := first.eq_of_literal isLiteral
      simpa using others.operators_take_or_leave found
  | cons sign signs ih =>
    have areLater : ∀ other ∈ signs, other.kind = .plus ∨ other.kind = .dash := fun other mem =>
      areSigns other (List.mem_cons_of_mem _ mem)
    cases h with
    | expression first others =>
      obtain ⟨operand, inner⟩ := first.operand_of_sign (areSigns sign List.mem_cons_self)
      rcases ih areLater inner with ⟨takes, fewer⟩ | ⟨leaves, rfl⟩
      · have tighter : .additive < rule.power := takes.elim id And.right
        have fewer' := others.length_le
        simp only [Phrase.least] at fewer'
        exact .inl ⟨.inr ⟨List.cons_ne_nil _ _, tighter⟩, by omega⟩
      · have notTighter : ¬ .additive < rule.power := fun tighter => leaves (.inl tighter)
        rcases others.operators_take_or_leave found with ⟨tighter, fewer⟩ | ⟨weaker, rfl⟩
        · exact .inl ⟨.inl tighter, fewer⟩
        · exact .inr ⟨fun takes => takes.elim weaker fun both => notTighter both.2, rfl⟩

end Reads

/-! ### Nodes of operators -/

/-- There is a node at a place, and what stands there is an operator between two operands. -/
structure HasOperator (nodes : List (Tree (Option Nat))) (place : Nat) (operator : Token) :
    Prop where
  isNote : Tree.IsNote place nodes
  isOperator : ∀ node ∈ nodes, node.note = some place →
    ∃ left right span, node = .binary (some place) left operator right span

/-- Two ways to cut some tokens at one place are the same. -/
theorem eq_of_cut {whole before before' rest rest' : List Token} {token token' : Token}
    (eq : whole = before ++ token :: rest) (eq' : whole = before' ++ token' :: rest')
    (size : some before.length = some before'.length) :
    before = before' ∧ token = token' ∧ rest = rest' := by
  obtain ⟨rfl, later⟩ := List.append_inj (eq.symm.trans eq') (Option.some.inj size)
  exact ⟨rfl, List.cons.inj later⟩

namespace Expr.IsReadFrom

variable {whole before rest : List Token} {operator : Token} {rule : InfixRule} {expr : Expr}

/-- The place of each token that a tree keeps is that of a node. -/
theorem isNote (h : Expr.IsReadFrom whole expr) (eq : whole = before ++ operator :: rest)
    (isKept : operator.kind.isKept) :
    Tree.IsNote before.length (expr.placed whole).nodes := by
  refine (Tree.isNote_dealt_iff expr ?_ _).2 ?_
  · rw [length_keptPlaces, h.inOrder]
  · exact mem_keptPlaces_iff.2 ⟨before, operator, rest, eq, isKept, (Nat.zero_add _).symm⟩

/-- An operator behind a literal is applied where it stands. -/
theorem operator_at (h : Expr.IsReadFrom whole expr) (eq : whole = before ++ operator :: rest)
    (found : Rules.standardInfix? operator.kind = some rule) (behind : EndsInLiteral before)
    {node : Tree (Option Nat)} (mem : node ∈ (expr.placed whole).nodes)
    (isNote : node.note = some before.length) :
    ∃ left right span taken rest', node = .binary (some before.length) left operator right span ∧
      rest = taken ++ rest' ∧
      IsPart (.expression rule.operandPower) (before ++ [operator]) taken rest' right := by
  have sourced := h.nodes node mem
  cases node with
  | literal note token =>
    obtain ⟨before', rest', eq', isNote', isLiteral⟩ := sourced
    obtain ⟨rfl, rfl, rfl⟩ := eq_of_cut eq eq' (isNote.symm.trans isNote')
    exact absurd isLiteral (TokenKind.not_isLiteral_of_standardInfix? found)
  | unary note sign operand span =>
    obtain ⟨before', taken, rest', eq', isNote', notBehind, -⟩ := sourced
    obtain ⟨rfl, -, -⟩ := eq_of_cut eq eq' (isNote.symm.trans isNote')
    exact absurd behind notBehind
  | binary note left operator' right span =>
    obtain ⟨rule', before', taken, rest', eq', isNote', applied⟩ := sourced
    obtain ⟨rfl, rfl, rfl⟩ := eq_of_cut eq eq' (isNote.symm.trans isNote')
    obtain rfl := Option.some.inj (found.symm.trans applied.found)
    exact ⟨left, right, span, taken, rest', by rw [← isNote]; rfl, rfl, applied.right⟩
  | ifThen note => cases isNote.symm.trans sourced
  | ifElse note => cases isNote.symm.trans sourced
  | block note => cases isNote.symm.trans sourced

theorem hasOperator (h : Expr.IsReadFrom whole expr) (eq : whole = before ++ operator :: rest)
    (found : Rules.standardInfix? operator.kind = some rule) (behind : EndsInLiteral before) :
    HasOperator (expr.placed whole).nodes before.length operator where
  isNote := h.isNote eq (TokenKind.isKept_of_standardInfix? found)
  isOperator := by
    intro node mem isNote
    obtain ⟨left, right, span, -, -, isBinary, -, -⟩ := h.operator_at eq found behind mem isNote
    exact ⟨left, right, span, isBinary⟩

end Expr.IsReadFrom

/-! ### Chains as whole sources -/

section Chain

open SignedLink (spread)

variable {σ : Type} [TokenSource σ] {source : σ} {first : SignedLiteral}
  {front later : List SignedLink} {link next : SignedLink} {last : Token} {expr : Expr}

theorem endsInLiteral_chain (isSigned : first.IsSigned) (areLinks : ∀ link ∈ front, link.IsLink) :
    EndsInLiteral (first.tokens ++ spread front) := by
  rcases List.eq_nil_or_concat front with rfl | ⟨front, link, rfl⟩
  · rw [spread, List.flatMap_nil, List.append_nil]
    exact isSigned.endsInLiteral []
  · have isLink := areLinks link (by simp)
    have ends := isLink.isSigned.endsInLiteral (first.tokens ++ spread front ++ [link.operator])
    simpa [spread, SignedLink.tokens] using ends

/-- What the right operand of an operator of a chain takes in. -/
theorem IsPart.isNote_next_iff {before taken rest rest' : List Token} {rule : InfixRule}
    {right : Tree (Option Nat)} (isLink : link.IsLink) (isLink' : next.IsLink)
    (found : Rules.standardInfix? link.operator.kind = some rule)
    (noTighter : next.power ≤ link.power)
    (notRight : link.operator.kind ≠ .caret ∧ link.operator.kind ≠ .assignment)
    (part : IsPart (.expression rule.operandPower) before taken rest right)
    (eq : taken ++ rest = link.operand.tokens ++ next.operator :: rest') :
    Tree.IsNote (before.length + link.operand.tokens.length) right.nodes ↔
      link.operand.signs ≠ [] ∧ .additive < next.power := by
  obtain ⟨rule', found', power'⟩ := isLink'.rule
  have isPower : rule.power = link.power := (Rules.powerOf_of_standardInfix? found).symm
  have operandPower : rule.operandPower = link.power := by
    have left : ¬ rule.power.nestsRight := by
      rw [isPower, SignedLink.power, Rules.nestsRight_powerOf_iff, not_or]
      exact notRight
    rw [Rules.operandPower_of_standardInfix? found, if_neg left, isPower]
  have reads := part.reads
  rw [eq, SignedLiteral.tokens, List.append_assoc, operandPower] at reads
  have notTighter : ¬ link.power < rule'.power := by
    rw [power']
    exact Nat.not_lt.2 noTighter
  rw [part.isNote_iff, mem_keptPlaces_taken_iff eq (TokenKind.isKept_of_standardInfix? found'),
    ← power']
  rcases reads.takes_or_leaves isLink.isSigned.areSigns isLink.isSigned.isLiteral found' with
    ⟨takes, fewer⟩ | ⟨leaves, rfl⟩
  · exact iff_of_true fewer (takes.resolve_left notTighter)
  · refine iff_of_false ?_ fun takes => leaves (.inr takes)
    exact Nat.not_le.2 (Nat.lt_succ_self rest'.length)

/-- In a chain of literals with signs, take an operator that does not nest to the right and the next
one, which binds no tighter. Then the next one is in the right operand of the first if and only if
there is a sign between them and the next one binds tighter than a sum. -/
theorem parseExpression_signedChain (isSigned : first.IsSigned)
    (areLinks : ∀ other ∈ front ++ link :: next :: later, other.IsLink)
    (tokens : TokenSource.tokens source =
      first.tokens ++ spread (front ++ link :: next :: later) ++ [last])
    (noTighter : next.power ≤ link.power)
    (notRight : link.operator.kind ≠ .caret ∧ link.operator.kind ≠ .assignment)
    (ok : (parseExpression source).result = .ok expr) :
    let nodes := (Expr.placed (TokenSource.tokens source) expr).nodes
    let place := (first.tokens ++ spread front).length
    let place' := (first.tokens ++ spread (front ++ [link])).length
    expr.inOrder = kept (TokenSource.tokens source) ∧
      HasOperator nodes place link.operator ∧ HasOperator nodes place' next.operator ∧
      ∀ left right span, .binary (some place) left link.operator right span ∈ nodes →
        ((∃ left' right' span', .binary (some place') left' next.operator right' span' ∈
          right.nodes) ↔ link.operand.signs ≠ [] ∧ .additive < next.power) := by
  intro nodes place place'
  have sourced := parseExpression_sourced ok
  have isLink : link.IsLink := areLinks link (by simp)
  have isLink' : next.IsLink := areLinks next (by simp)
  obtain ⟨rule, found, -⟩ := isLink.rule
  obtain ⟨rule', found', -⟩ := isLink'.rule
  -- The tokens, cut at the one operator and at the other.
  let before := first.tokens ++ spread front
  let rest' := next.operand.tokens ++ (spread later ++ [last])
  have eq : TokenSource.tokens source =
      before ++ link.operator :: (link.operand.tokens ++ next.operator :: rest') := by
    rw [tokens]
    simp [before, rest', spread, SignedLink.tokens]
  have eq' : TokenSource.tokens source =
      before ++ [link.operator] ++ link.operand.tokens ++ next.operator :: rest' := by
    rw [eq]
    simp
  have placeEq' : place' = (before ++ [link.operator] ++ link.operand.tokens).length := by
    simp [place', before, spread, SignedLink.tokens]
  have behind : EndsInLiteral before :=
    endsInLiteral_chain isSigned fun other mem => areLinks other (List.mem_append_left _ mem)
  have hasOperator' := sourced.hasOperator eq' found' (isLink.isSigned.endsInLiteral _)
  rw [← placeEq'] at hasOperator'
  refine ⟨sourced.inOrder, sourced.hasOperator eq found behind, hasOperator', ?_⟩
  intro left right span mem
  obtain ⟨_, _, _, taken, rest, same, restEq, part⟩ :=
    sourced.operator_at eq found behind mem rfl
  cases same
  rw [← part.isNote_next_iff isLink isLink' found noTighter notRight restEq.symm,
    ← List.length_append, ← placeEq']
  constructor
  · rintro ⟨left', right', span', inside⟩
    exact ⟨_, inside, rfl⟩
  · rintro ⟨node, inside, isNote⟩
    have below : node ∈ (Tree.binary (some place) left link.operator right span).nodes :=
      List.mem_cons_of_mem _ (List.mem_append_right _ inside)
    obtain ⟨left', right', span', rfl⟩ :=
      hasOperator'.isOperator node (Tree.mem_nodes_trans below mem) isNote
    exact ⟨left', right', span', inside⟩

/-- A quotient of a negative number before a product: the sign takes in the product, although it
binds no tighter than the quotient. -/
theorem parseExpression_signedQuotient :
    let source := Scanner.ofSource "8/-2*3" "shell"
    let token : TokenKind → String → Nat → Token := fun kind text offset =>
      ⟨kind, text, Span.ofBytes "shell" offset (offset + 1)⟩
    let first : SignedLiteral := ⟨[], token .integer "8" 0⟩
    let link : SignedLink := ⟨token .slash "/" 1, [token .dash "-" 2], token .integer "2" 3⟩
    let next : SignedLink := ⟨token .star "*" 4, [], token .integer "3" 5⟩
    (first.IsSigned ∧ link.IsLink ∧ next.IsLink) ∧
      (∃ last, TokenSource.tokens source = first.tokens ++ spread [link, next] ++ [last]) ∧
      next.power ≤ link.power ∧ link.operator.kind ≠ .caret ∧ link.operator.kind ≠ .assignment ∧
      ∃ expr, (parseExpression source).result = .ok expr ∧
        ∃ left right span left' right' span',
          .binary (some 1) left link.operator right span ∈
            (Expr.placed (TokenSource.tokens source) expr).nodes ∧
          .binary (some 4) left' next.operator right' span' ∈ right.nodes := by
  intro source token first link next
  have tokens : TokenSource.tokens source =
      first.tokens ++ spread [link, next] ++ [⟨.eof, "EOF", Span.ofBytes "shell" 6 6⟩] := by
    decide +kernel
  let product : Expr := .binary () (.literal () link.operand.literal) next.operator
    (.literal () next.operand.literal) (Span.ofBytes "shell" 3 6)
  let negative : Expr := .unary () (token .dash "-" 2) product (Span.ofBytes "shell" 2 6)
  let quotient : Expr := .binary () (.literal () first.literal) link.operator negative
    (Span.ofBytes "shell" 0 6)
  have ok : (parseExpression source).result = .ok quotient := by decide +kernel
  refine ⟨⟨⟨by decide, by decide⟩, ⟨by decide, by decide, by decide⟩,
    ⟨by decide, by decide, by decide⟩⟩, ⟨_, tokens⟩, by decide, by decide, by decide,
    quotient, ok, ?_⟩
  rw [tokens]
  exact ⟨_, _, _, _, _, _, Tree.mem_nodes_self _, List.mem_cons_of_mem _ (Tree.mem_nodes_self _)⟩

/-- A difference of a negative number before another difference: the sign leaves it, so it is not in
the right operand. -/
theorem parseExpression_signedChain_difference :
    let source := Scanner.ofSource "8--2-3" "shell"
    let token : TokenKind → String → Nat → Token := fun kind text offset =>
      ⟨kind, text, Span.ofBytes "shell" offset (offset + 1)⟩
    let link : SignedLink := ⟨token .dash "-" 1, [token .dash "-" 2], token .integer "2" 3⟩
    let next : SignedLink := ⟨token .dash "-" 4, [], token .integer "3" 5⟩
    ∃ expr, (parseExpression source).result = .ok expr ∧
      HasOperator (Expr.placed (TokenSource.tokens source) expr).nodes 1 link.operator ∧
      ∀ left right span, .binary (some 1) left link.operator right span ∈
          (Expr.placed (TokenSource.tokens source) expr).nodes →
        ¬ ∃ left' right' span', .binary (some 4) left' next.operator right' span' ∈
          right.nodes := by
  intro source token link next
  let first : SignedLiteral := ⟨[], token .integer "8" 0⟩
  have tokens : TokenSource.tokens source = first.tokens ++ spread ([] ++ link :: next :: []) ++
      [⟨.eof, "EOF", Span.ofBytes "shell" 6 6⟩] := by
    decide +kernel
  have isSigned : first.IsSigned := ⟨by decide, by decide⟩
  have areLinks : ∀ other ∈ [] ++ link :: next :: [], other.IsLink := by
    have isLink : link.IsLink := ⟨by decide, by decide, by decide⟩
    have isLink' : next.IsLink := ⟨by decide, by decide, by decide⟩
    simpa using And.intro isLink isLink'
  obtain ⟨expr, ok⟩ := exists_ok_of_isOk
    (show (parseExpression source).result.isOk = true by decide +kernel)
  obtain ⟨-, hasOperator, -, inside⟩ :=
    parseExpression_signedChain isSigned areLinks tokens (by decide) (by decide) ok
  refine ⟨expr, ok, hasOperator, ?_⟩
  intro left right span mem
  have notTighter : ¬ BindingPower.additive < next.power := by decide
  exact fun isInside => notTighter ((inside left right span mem).1 isInside).2

end Chain

end ExprCheck
