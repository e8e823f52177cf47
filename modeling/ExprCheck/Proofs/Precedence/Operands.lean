import ExprCheck.Proofs.Grammar.Derivation
import ExprCheck.Proofs.Precedence.Signs
import Mathlib.Data.List.Basic

/-!
# What a sign applies to

The operand of a sign is read at the power of a sum, whatever power the sign itself is read at. So
in a chain of operators and literals with signs it reaches from the token behind the sign to the
last literal before an operator that binds no tighter than a sum:

* `Reads.endsUpTo`: what a phrase takes ends in a literal or in a closing bracket, so no operator
  stands where a sign could.
* `Reads.takesFactors`: from a chain a phrase at a power that is not below that of a sum takes only
  operators that bind tighter than a sum.
* `Expr.IsReadFrom.sign_at`: a sign that is not behind an operand has a node, which applies it to
  what is read behind it.
* `parseExpression_signedOperands`: the operand of each sign of a chain.
-/

namespace ExprCheck

/-! ### What an operand ends in -/

/-- A token of this kind is the last one of an operand. -/
def TokenKind.EndsOperand (kind : TokenKind) : Prop :=
  kind.isLiteral ∨ kind = .closeParen ∨ kind = .closeCurly

instance (kind : TokenKind) : Decidable kind.EndsOperand :=
  inferInstanceAs (Decidable (_ ∨ _ ∨ _))

/-- The last token before the rest ends an operand. -/
def EndsUpTo (tokens rest : List Token) : Prop :=
  ∃ front last, tokens = front ++ last :: rest ∧ last.kind.EndsOperand

namespace EndsUpTo

variable {first : Token} {tokens middle rest : List Token}

theorem here (ends : first.kind.EndsOperand) : EndsUpTo (first :: rest) rest :=
  ⟨[], first, rfl, ends⟩

theorem cons (first : Token) (h : EndsUpTo tokens rest) : EndsUpTo (first :: tokens) rest := by
  obtain ⟨front, last, rfl, ends⟩ := h
  exact ⟨first :: front, last, rfl, ends⟩

theorem append (taken : List Token) (h : EndsUpTo middle rest) :
    EndsUpTo (taken ++ middle) rest := by
  obtain ⟨front, last, rfl, ends⟩ := h
  exact ⟨taken ++ front, last, (List.append_assoc ..).symm, ends⟩

theorem trans (h : EndsUpTo tokens middle) (h' : EndsUpTo middle rest) : EndsUpTo tokens rest := by
  obtain ⟨front, last, rfl, -⟩ := h
  exact (h'.cons last).append front

/-- Behind the last token another may be passed that ends an operand as well. -/
theorem snoc (h : EndsUpTo tokens (first :: rest)) (ends : first.kind.EndsOperand) :
    EndsUpTo tokens rest :=
  h.trans (.here ends)

theorem of_append {taken : List Token} (h : EndsUpTo (taken ++ rest) rest) : EndsUpTo taken [] := by
  obtain ⟨front, last, eq, ends⟩ := h
  refine ⟨front, last, List.append_cancel_right (eq.trans ?_), ends⟩
  rw [List.append_assoc]
  rfl

end EndsUpTo

theorem not_endsUpTo_nil : ¬ EndsUpTo [] [] := by
  rintro ⟨front, last, eq, -⟩
  cases front <;> cases eq

theorem not_endsUpTo_concat {last : Token} (notEnd : ¬ last.kind.EndsOperand) (front : List Token) :
    ¬ EndsUpTo (front ++ [last]) [] := by
  rintro ⟨front', last', eq, ends⟩
  obtain ⟨-, same⟩ := List.append_inj' eq rfl
  obtain rfl := (List.cons.inj same).1
  exact notEnd ends

theorem TokenKind.not_endsOperand_of_operator {kind : TokenKind}
    (h : kind ∈ Rules.binaryOperators) : ¬ kind.EndsOperand := by
  revert h
  cases kind <;> decide

/-- What a phrase ends in. Operators may take nothing at all. -/
def Phrase.EndsInOperand (tokens rest : List Token) : Phrase → Prop
  | .operators .. => tokens = rest ∨ EndsUpTo tokens rest
  | .expression _ | .operand | .block | .branch => EndsUpTo tokens rest

/-- What a phrase takes ends in a literal or in a closing bracket. -/
theorem Reads.endsUpTo {phrase : Phrase} {tokens : List Token} {expr : Expr} {rest : List Token}
    (h : Reads phrase tokens expr rest) : phrase.EndsInOperand tokens rest := by
  induction h using Reads.induct with
  | expression _ _ ih ih' => exact ih'.elim (fun eq => eq ▸ ih) ih.trans
  | literal isLiteral => exact .here (.inl isLiteral)
  | sign _ _ ih => exact ih.cons _
  | group _ _ isClosing ih => exact (ih.snoc (.inr (.inl isClosing))).cons _
  | blockOperand _ ih => exact ih
  | branchOperand _ _ ih => exact ih
  | stop _ => exact .inl rfl
  | operator _ _ _ _ ih ih' =>
    exact .inr ((ih'.elim (fun eq => eq ▸ ih) ih.trans).cons _)
  | @block _ closing _ _ _ _ inner isClosing _ =>
    obtain ⟨taken, rfl, -⟩ := Reads.row_covered inner fun _ _ _ reads => reads.covered
    exact ((EndsUpTo.here (.inr (.inr isClosing))).append taken).cons _
  | ifThen _ _ _ _ ih ih' => exact (ih.trans ih').cons _
  | ifElse _ _ _ _ ih ih' ih'' => exact (ih.trans (ih'.trans (ih''.cons _))).cons _
  | ifElsif _ _ _ _ ih ih' ih'' => exact (ih.trans (ih'.trans ih'')).cons _

/-! ### Links behind an operand -/

open SignedLink (spread)

namespace SignedLink

/-- The operator is a product, a quotient, a remainder or a power. -/
def isFactor (link : SignedLink) : Bool :=
  link.operator.kind ∈ [.star, .slash, .percent, .caret]

/-- These are the operators that bind tighter than a sum. -/
theorem isFactor_iff (link : SignedLink) : link.isFactor ↔ .additive < link.power := by
  unfold isFactor power
  cases link.operator.kind <;> decide

end SignedLink

/-- An operator that binds tighter than a sum reads its right operand at no lower power than that of
a sum. -/
theorem Rules.additive_le_operandPower {kind : TokenKind} {rule : InfixRule}
    (found : standardInfix? kind = some rule) (tighter : .additive < rule.power) :
    .additive ≤ rule.operandPower := by
  revert rule
  cases kind <;> simp [standardInfix?] <;> decide

/-- Links before a tail that stops every expression. -/
structure StartsWith (links : List SignedLink) (tail tokens : List Token) : Prop where
  areLinks : ∀ link ∈ links, link.IsLink
  stops : Stops tail
  eq : tokens = spread links ++ tail

/-- Of some links before a tail, the first ones are taken, all of which bind tighter than a sum. -/
def TakesFactors (links : List SignedLink) (tail rest : List Token) : Prop :=
  ∃ taken behind, links = taken ++ behind ∧ StartsWith behind tail rest ∧
    ∀ link ∈ taken, .additive < link.power

namespace TakesFactors

variable {links : List SignedLink} {link : SignedLink} {tail middle rest : List Token}

theorem nothing (starts : StartsWith links tail rest) : TakesFactors links tail rest :=
  ⟨[], links, rfl, starts, fun _ mem => absurd mem List.not_mem_nil⟩

theorem trans (h : TakesFactors links tail middle)
    (h' : ∀ behind, StartsWith behind tail middle → TakesFactors behind tail rest) :
    TakesFactors links tail rest := by
  obtain ⟨taken, behind, rfl, starts, tighter⟩ := h
  obtain ⟨taken', behind', rfl, starts', tighter'⟩ := h' behind starts
  exact ⟨taken ++ taken', behind', (List.append_assoc ..).symm, starts',
    List.forall_mem_append.2 ⟨tighter, tighter'⟩⟩

theorem cons (tighter : .additive < link.power) (h : TakesFactors links tail rest) :
    TakesFactors (link :: links) tail rest := by
  obtain ⟨taken, behind, rfl, starts, all⟩ := h
  exact ⟨link :: taken, behind, rfl, starts, List.forall_mem_cons.2 ⟨tighter, all⟩⟩

/-- If the next operator binds no tighter than a sum, then all that bind tighter are taken. -/
theorem eq_spread_dropWhile (h : TakesFactors links tail rest)
    (ends : BindingPower.additive.EndsBefore rest) :
    rest = spread (links.dropWhile SignedLink.isFactor) ++ tail := by
  obtain ⟨taken, behind, rfl, starts, tighter⟩ := h
  have stays : behind.dropWhile SignedLink.isFactor = behind := by
    cases behind with
    | nil => rfl
    | cons link behind =>
      obtain ⟨rule, found, power⟩ := (starts.areLinks link List.mem_cons_self).rule
      obtain ⟨next, later, eq, leaves⟩ := ends
      rw [starts.eq] at eq
      obtain ⟨rfl, -⟩ := List.cons.inj eq
      refine List.dropWhile_cons_of_neg fun isFactor => leaves rule found ?_
      exact power ▸ (link.isFactor_iff).1 isFactor
  rw [List.dropWhile_append_of_pos fun link mem => (link.isFactor_iff).2 (tighter link mem), stays]
  exact starts.eq

end TakesFactors

namespace SignedLiteral.IsSigned

/-- The first token of a signed literal is the literal, or a sign before another signed literal. -/
theorem split {operand : SignedLiteral} (h : operand.IsSigned)
    {first : Token} {later middle : List Token} (eq : first :: later = operand.tokens ++ middle) :
    first.kind.isLiteral ∧ later = middle ∨
      (first.kind = .plus ∨ first.kind = .dash) ∧
        ∃ operand' : SignedLiteral, operand'.IsSigned ∧ later = operand'.tokens ++ middle := by
  obtain ⟨signs, literal⟩ := operand
  cases signs with
  | nil =>
    obtain ⟨rfl, rfl⟩ := List.cons.inj eq
    exact .inl ⟨h.isLiteral, rfl⟩
  | cons sign signs =>
    obtain ⟨rfl, rfl⟩ := List.cons.inj eq
    obtain ⟨isSign, areSigns⟩ := List.forall_mem_cons.1 h.areSigns
    exact .inr ⟨isSign, ⟨signs, literal⟩, ⟨areSigns, h.isLiteral⟩, rfl⟩

theorem starts {operand : SignedLiteral} (h : operand.IsSigned) {first : Token}
    {later middle : List Token} (eq : first :: later = operand.tokens ++ middle) :
    first.kind.isLiteral ∨ first.kind = .plus ∨ first.kind = .dash :=
  (h.split eq).imp And.left And.left

end SignedLiteral.IsSigned

/-- What a phrase leaves of a chain, if its power is not below that of a sum. -/
def Phrase.TakesFactors (tokens rest : List Token) : Phrase → Prop
  | .expression power => .additive ≤ power → ∀ operand links tail middle,
    SignedLiteral.IsSigned operand → StartsWith links tail middle →
    tokens = operand.tokens ++ middle → ExprCheck.TakesFactors links tail rest
  | .operand => ∀ operand links tail middle, SignedLiteral.IsSigned operand →
    StartsWith links tail middle → tokens = operand.tokens ++ middle →
    ExprCheck.TakesFactors links tail rest
  | .operators power _ => .additive ≤ power → ∀ links tail, StartsWith links tail tokens →
    ExprCheck.TakesFactors links tail rest
  | .block | .branch => True

/-- Every phrase that starts at a signed literal of a chain, or behind it, leaves links. -/
theorem Reads.takesFactors {phrase : Phrase} {tokens : List Token} {expr : Expr}
    {rest : List Token} (h : Reads phrase tokens expr rest) : phrase.TakesFactors tokens rest := by
  induction h using Reads.induct with
  | expression _ _ ih ih' =>
    intro atLeast operand links tail middle isSigned starts eq
    exact (ih operand links tail middle isSigned starts eq).trans (ih' atLeast · tail)
  | literal isLiteral =>
    intro operand links tail middle isSigned starts eq
    rcases isSigned.split eq with ⟨-, rfl⟩ | ⟨isSign, -⟩
    · exact .nothing starts
    · rcases isSign with isSign | isSign <;> rw [isSign] at isLiteral <;> cases isLiteral
  | sign isSign _ ih =>
    intro operand links tail middle isSigned starts eq
    rcases isSigned.split eq with ⟨isLiteral, -⟩ | ⟨-, operand', isSigned', eq'⟩
    · rcases isSign with isSign | isSign <;> rw [isSign] at isLiteral <;> cases isLiteral
    · exact ih (Nat.le_refl _) operand' links tail middle isSigned' starts eq'
  | group isOpening _ _ =>
    intro operand links tail middle isSigned _ eq
    have starts := isSigned.starts eq
    rw [isOpening] at starts
    exact absurd starts (by decide)
  | blockOperand inner _ =>
    intro operand links tail middle isSigned _ eq
    cases inner with
    | block isOpening =>
      have starts := isSigned.starts eq
      rw [isOpening] at starts
      exact absurd starts (by decide)
  | branchOperand isWord _ =>
    intro operand links tail middle isSigned _ eq
    have starts := isSigned.starts eq
    rw [isWord] at starts
    exact absurd starts (by decide)
  | stop _ => exact fun _ links tail starts => .nothing starts
  | @operator power _ rule _ _ _ _ _ operator found tighter _ _ ih ih' =>
    intro atLeast links tail starts
    obtain ⟨areLinks, stops, eq⟩ := starts
    cases links with
    | nil =>
      obtain ⟨next, later, rfl, notFound, -⟩ := stops
      obtain ⟨rfl, -⟩ := List.cons.inj eq
      rw [found] at notFound
      cases notFound
    | cons link links =>
      obtain ⟨isLink, areLinks⟩ := List.forall_mem_cons.1 areLinks
      rw [SignedLink.spread_cons, List.append_assoc] at eq
      obtain ⟨rfl, eq'⟩ := List.cons.inj eq
      have isPower : link.power = rule.power := Rules.powerOf_of_standardInfix? found
      have above : .additive < rule.power := Nat.lt_of_le_of_lt atLeast tighter
      refine .cons (isPower ▸ above) ?_
      -- Behind the operator is a signed literal, and what its expression leaves are links again.
      exact (ih (Rules.additive_le_operandPower found above) link.operand links tail _
        isLink.isSigned ⟨areLinks, stops, rfl⟩ eq').trans (ih' atLeast · tail)
  | _ => trivial

/-! ### Nodes of signs -/

/-- The left operand of an operator ends in front of it. -/
theorem EndsAt.endsUpTo {before rest : List Token} {tree : Tree (Option Nat)}
    (h : EndsAt before rest tree) : EndsUpTo before [] := by
  obtain ⟨front, taken, rfl, part⟩ := h
  have ends : EndsUpTo (taken ++ rest) rest := by
    rcases part with operand | ⟨_, _, _, _, _, _, _, _, right⟩
    · exact operand.reads.endsUpTo
    · exact right.reads.endsUpTo
  exact ends.of_append.append front

/-- A sign that is not behind an operand applies to what is read behind it. -/
theorem Expr.IsReadFrom.sign_at {whole before rest : List Token} {sign : Token} {expr : Expr}
    (h : Expr.IsReadFrom whole expr) (eq : whole = before ++ sign :: rest)
    (isSign : sign.kind = .plus ∨ sign.kind = .dash) (notBehind : ¬ EndsUpTo before [])
    {node : Tree (Option Nat)} (mem : node ∈ (expr.placed whole).nodes)
    (isNote : node.note = some before.length) :
    ∃ operand span taken rest', node = .unary (some before.length) sign operand span ∧
      rest = taken ++ rest' ∧
      IsPart (.expression .additive) (before ++ [sign]) taken rest' operand := by
  have sourced := h.nodes node mem
  cases node with
  | literal note token =>
    obtain ⟨before', rest', eq', isNote', isLiteral⟩ := sourced
    obtain ⟨-, rfl, -⟩ := eq_of_cut eq eq' (isNote.symm.trans isNote')
    rcases isSign with isSign | isSign <;> rw [isSign] at isLiteral <;> cases isLiteral
  | unary note sign' operand span =>
    obtain ⟨before', taken, rest', eq', isNote', -, part⟩ := sourced
    obtain ⟨rfl, rfl, rfl⟩ := eq_of_cut eq eq' (isNote.symm.trans isNote')
    exact ⟨operand, span, taken, rest', by rw [← isNote]; rfl, rfl, part⟩
  | binary note left operator right span =>
    obtain ⟨rule, before', taken, rest', eq', isNote', applied⟩ := sourced
    obtain ⟨rfl, -, -⟩ := eq_of_cut eq eq' (isNote.symm.trans isNote')
    exact absurd applied.left.endsUpTo notBehind
  | ifThen note => cases isNote.symm.trans sourced
  | ifElse note => cases isNote.symm.trans sourced
  | block note => cases isNote.symm.trans sourced

/-! ### What a sign takes from a chain -/

theorem SignedLiteral.IsSigned.areKept {operand : SignedLiteral} (h : operand.IsSigned) :
    ∀ token ∈ operand.tokens, token.kind.isKept := by
  refine List.forall_mem_append.2 ⟨fun sign mem => ?_, List.forall_mem_singleton.2 ?_⟩
  · exact TokenKind.isKept_of_standardInfix? (Rules.standardInfix?_of_isSign (h.areSigns sign mem))
  · exact TokenKind.isKept_of_isLiteral h.isLiteral

theorem SignedLink.areKept {links : List SignedLink} (areLinks : ∀ link ∈ links, link.IsLink) :
    ∀ token ∈ spread links, token.kind.isKept := by
  intro token mem
  obtain ⟨link, mem, mem'⟩ := List.mem_flatMap.1 mem
  obtain ⟨rule, found, -⟩ := (areLinks link mem).rule
  rcases List.mem_cons.1 mem' with rfl | mem'
  · exact TokenKind.isKept_of_standardInfix? found
  · exact (areLinks link mem).isSigned.areKept token mem'

/-- What is read at the power of a sum from a chain ends before the first operator that binds no
tighter than a sum. -/
theorem IsPart.eq_of_signed {before taken rest middle tail : List Token}
    {tree : Tree (Option Nat)} {operand : SignedLiteral} {links : List SignedLink}
    (part : IsPart (.expression .additive) before taken rest tree) (isSigned : operand.IsSigned)
    (starts : StartsWith links tail middle) (eq : taken ++ rest = operand.tokens ++ middle) :
    taken = operand.tokens ++ spread (links.takeWhile SignedLink.isFactor) := by
  have factors : TakesFactors links tail rest :=
    part.reads.takesFactors (Nat.le_refl _) operand links tail middle isSigned starts eq
  have restEq := factors.eq_spread_dropWhile part.reads.ends
  refine List.append_cancel_right (eq.trans ?_)
  rw [starts.eq, restEq, List.append_assoc, ← List.append_assoc (spread _),
    ← SignedLink.spread_append, List.takeWhile_append_dropWhile]

/-- The tree of what is read at the power of a sum from a chain has these tokens, without a gap
between their places. -/
theorem IsPart.extent {before taken rest middle tail : List Token} {tree : Tree (Option Nat)}
    {operand : SignedLiteral} {links : List SignedLink}
    (part : IsPart (.expression .additive) before taken rest tree) (isSigned : operand.IsSigned)
    (starts : StartsWith links tail middle) (eq : taken ++ rest = operand.tokens ++ middle) :
    let extent := operand.tokens ++ spread (links.takeWhile SignedLink.isFactor)
    tree.erase.inOrder = extent ∧ ∀ place, Tree.IsNote place tree.nodes ↔
      before.length ≤ place ∧ place < before.length + extent.length := by
  intro extent
  have takenEq : taken = extent := part.eq_of_signed isSigned starts eq
  have areLinks : ∀ link ∈ links.takeWhile SignedLink.isFactor, link.IsLink := fun link mem =>
    starts.areLinks link ((List.takeWhile_sublist _).subset mem)
  have all : ∀ token ∈ extent, token.kind.isKept :=
    List.forall_mem_append.2 ⟨isSigned.areKept, SignedLink.areKept areLinks⟩
  refine ⟨?_, fun place => ?_⟩
  · rw [part.inOrder, takenEq, kept_of_forall_isKept all]
  · rw [part.isNote_iff, takenEq, mem_keptPlaces_of_forall_isKept all]

/-! ### The operands of a chain -/

/-- An operand of a chain, with the tokens before it and the links behind it. -/
inductive HasOperand (first : SignedLiteral) (links : List SignedLink) :
    List Token → SignedLiteral → List SignedLink → Prop where
  | first : HasOperand first links [] first links
  | link {front link later} :
      links = front ++ link :: later →
      HasOperand first links (first.tokens ++ spread front ++ [link.operator]) link.operand later

namespace HasOperand

variable {first operand : SignedLiteral} {links later : List SignedLink} {before : List Token}

theorem eq (h : HasOperand first links before operand later) :
    first.tokens ++ spread links = before ++ (operand.tokens ++ spread later) := by
  cases h with
  | first => rfl
  | link split =>
    rw [split, SignedLink.spread_append, SignedLink.spread_cons, SignedLink.tokens]
    simp

theorem isSigned (h : HasOperand first links before operand later) (isSigned : first.IsSigned)
    (areLinks : ∀ link ∈ links, link.IsLink) : operand.IsSigned := by
  cases h with
  | first => exact isSigned
  | link split => exact (areLinks _ (split ▸ by simp)).isSigned

theorem areLater (h : HasOperand first links before operand later)
    (areLinks : ∀ link ∈ links, link.IsLink) : ∀ link ∈ later, link.IsLink := by
  cases h with
  | first => exact areLinks
  | link split =>
    subst split
    exact fun link mem => areLinks link (List.mem_append_right _ (List.mem_cons_of_mem _ mem))

/-- Before each of its signs there is nothing, an operator or another sign. -/
theorem not_endsUpTo (h : HasOperand first links before operand later)
    (areLinks : ∀ link ∈ links, link.IsLink) {signs : List Token}
    (areSigns : ∀ sign ∈ signs, sign.kind = .plus ∨ sign.kind = .dash) :
    ¬ EndsUpTo (before ++ signs) [] := by
  rcases List.eq_nil_or_concat' signs with rfl | ⟨signs, sign, rfl⟩
  · rw [List.append_nil]
    cases h with
    | first => exact not_endsUpTo_nil
    | link split =>
      have isLink := areLinks _ (split ▸ List.mem_append_right _ List.mem_cons_self)
      exact not_endsUpTo_concat (TokenKind.not_endsOperand_of_operator isLink.isOperator) _
  · rw [← List.append_assoc]
    have isSign := areSigns sign (List.mem_append_right _ List.mem_cons_self)
    refine not_endsUpTo_concat (TokenKind.not_endsOperand_of_operator ?_) _
    rcases isSign with isSign | isSign <;> rw [isSign] <;> decide

end HasOperand

/-- There is a node at a place, and what stands there is a sign before an operand that is made of
the given tokens, which are those behind the place. -/
structure HasSign (nodes : List (Tree (Option Nat))) (place : Nat) (sign : Token)
    (extent : List Token) : Prop where
  isNote : Tree.IsNote place nodes
  isSign : ∀ node ∈ nodes, node.note = some place →
    ∃ operand span, node = .unary (some place) sign operand span ∧
      operand.erase.inOrder = extent ∧
      ∀ place', Tree.IsNote place' operand.nodes ↔ place < place' ∧ place' ≤ place + extent.length

/-- **The operand of a sign.** In a chain of literals with signs, each sign applies to the tokens
behind it up to the last literal that only products, quotients, remainders and powers lead to,
whatever operator or sign stands before it. -/
theorem parseExpression_signedOperands {σ : Type} [TokenSource σ] {source : σ}
    {first operand : SignedLiteral} {links later : List SignedLink} {last sign : Token}
    {before signs signs' : List Token} {expr : Expr} (isSigned : first.IsSigned)
    (areLinks : ∀ link ∈ links, link.IsLink)
    (tokens : TokenSource.tokens source = first.tokens ++ spread links ++ [last])
    (ok : (parseExpression source).result = .ok expr)
    (hasOperand : HasOperand first links before operand later)
    (split : operand.signs = signs ++ sign :: signs') :
    expr.inOrder = first.tokens ++ spread links ∧
      HasSign (Expr.placed (TokenSource.tokens source) expr).nodes (before ++ signs).length sign
        (signs' ++ operand.literal :: spread (later.takeWhile SignedLink.isFactor)) := by
  have sourced := parseExpression_sourced ok
  have isEnd : last.kind = .eof := TokenSource.kind_eq_eof_of_tokens tokens
  have isSigned' := hasOperand.isSigned isSigned areLinks
  obtain ⟨areBefore, areBehind⟩ := List.forall_mem_append.1 (split ▸ isSigned'.areSigns)
  obtain ⟨isSign, areBehind⟩ := List.forall_mem_cons.1 areBehind
  -- The sign stands before a signed literal with fewer signs.
  let inner : SignedLiteral := ⟨signs', operand.literal⟩
  have isInner : inner.IsSigned := ⟨areBehind, isSigned'.isLiteral⟩
  have starts : StartsWith later [last] (spread later ++ [last]) :=
    ⟨hasOperand.areLater areLinks, .of_kind isEnd (by decide) [], rfl⟩
  have whole : TokenSource.tokens source =
      before ++ signs ++ sign :: (inner.tokens ++ (spread later ++ [last])) := by
    rw [tokens, hasOperand.eq, SignedLiteral.tokens, split]
    simp [inner, SignedLiteral.tokens]
  have extent : signs' ++ operand.literal :: spread (later.takeWhile SignedLink.isFactor) =
      inner.tokens ++ spread (later.takeWhile SignedLink.isFactor) := by
    simp [inner, SignedLiteral.tokens]
  constructor
  · have all : ∀ token ∈ first.tokens ++ spread links, token.kind.isKept :=
      List.forall_mem_append.2 ⟨isSigned.areKept, SignedLink.areKept areLinks⟩
    rw [sourced.inOrder, tokens, (kept_before_eof isEnd _).1, kept_of_forall_isKept all]
  · rw [extent]
    refine ⟨sourced.isNote whole ?_, fun node mem isNote => ?_⟩
    · exact TokenKind.isKept_of_standardInfix? (Rules.standardInfix?_of_isSign isSign)
    · obtain ⟨operand', span, taken, rest, isUnary, eq, part⟩ :=
        sourced.sign_at whole isSign (hasOperand.not_endsUpTo areLinks areBefore) mem isNote
      obtain ⟨inOrder, places⟩ := part.extent isInner starts eq.symm
      refine ⟨operand', span, isUnary, inOrder, fun place' => ?_⟩
      rw [places, List.length_append, List.length_singleton]
      omega

/-- A sign behind a quotient, which takes in the product and the power behind it. -/
theorem parseExpression_signedOperands_quotient :
    let source := Scanner.ofSource "8/-2*3^4-1" "shell"
    let token : TokenKind → String → Nat → Token := fun kind text offset =>
      ⟨kind, text, Span.ofBytes "shell" offset (offset + 1)⟩
    ∃ expr, (parseExpression source).result = .ok expr ∧
      HasSign (Expr.placed (TokenSource.tokens source) expr).nodes 2 (token .dash "-" 2)
        [token .integer "2" 3, token .star "*" 4, token .integer "3" 5, token .caret "^" 6,
          token .integer "4" 7] := by
  intro source token
  let first : SignedLiteral := ⟨[], token .integer "8" 0⟩
  let link : SignedLink := ⟨token .slash "/" 1, [token .dash "-" 2], token .integer "2" 3⟩
  let later : List SignedLink :=
    [⟨token .star "*" 4, [], token .integer "3" 5⟩, ⟨token .caret "^" 6, [], token .integer "4" 7⟩,
      ⟨token .dash "-" 8, [], token .integer "1" 9⟩]
  let links : List SignedLink := link :: later
  have isSigned : first.IsSigned := ⟨by decide, by decide⟩
  have areLinks : ∀ link ∈ links, link.IsLink := by
    have areSigned : ∀ link ∈ links, link.operand.IsSigned := fun link mem =>
      ⟨by revert link; decide, by revert link; decide⟩
    exact fun link mem => ⟨by revert link; decide, areSigned link mem⟩
  have tokens : TokenSource.tokens source = first.tokens ++ spread links ++
      [⟨.eof, "EOF", Span.ofBytes "shell" 10 10⟩] := by
    decide +kernel
  obtain ⟨expr, ok⟩ := exists_ok_of_isOk
    (show (parseExpression source).result.isOk = true by decide +kernel)
  have isLink : links = [] ++ link :: later := rfl
  have hasOperand : HasOperand first links (first.tokens ++ spread [] ++ [link.operator])
      link.operand later := .link isLink
  have split : link.operand.signs = [] ++ token .dash "-" 2 :: [] := rfl
  obtain ⟨-, hasSign⟩ :=
    parseExpression_signedOperands isSigned areLinks tokens ok hasOperand split
  exact ⟨expr, ok, hasSign⟩

end ExprCheck
