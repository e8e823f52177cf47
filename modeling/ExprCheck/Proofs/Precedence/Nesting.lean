import ExprCheck.Proofs.Parser.Places

/-!
# Operators nest by precedence

What holds of an operator and an operator that is the root of one of its operands, in the tree of
any program, whatever stands between them:

* `Reads.root`: the root of an expression at a power is an operator that binds tighter than the
  power, or the expression is a single operand.
* `IsPart.lt_bracketLevel`: the root of an operand is an operator only inside round brackets.
* `IsPart.binds_or_lt`, `EndsAt.weaker_or_lt`: hence what binds how tightly in the right operand and
  in the left operand of an operator, as far as there are no round brackets.
* `parse_nests`: at the same level of round brackets, an operator in the right operand binds tighter
  and one in the left operand at least as tight; of equally tight operators the right one is applied
  first where they nest to the right, and the left one where they do not.
-/

namespace ExprCheck

/-! ### Operators at the root -/

/-- The root is an operator that binds tighter than a power. -/
def Expr.Binds (power : BindingPower) (expr : Expr) : Prop :=
  ∃ left operator right span rule, expr = .binary () left operator right span ∧
    Rules.standardInfix? operator.kind = some rule ∧ power < rule.power

/-- What the root of an expression can be, and what operators make of their left operand. -/
def Phrase.Roots (tokens : List Token) (expr : Expr) (rest : List Token) : Phrase → Prop
  | .expression power => Reads .operand tokens expr rest ∨ Expr.Binds power expr
  | .operators power left => expr = left ∧ tokens = rest ∨ Expr.Binds power expr
  | .operand | .block | .branch => True

namespace Reads

theorem root {phrase : Phrase} {tokens : List Token} {expr : Expr} {rest : List Token}
    (h : Reads phrase tokens expr rest) : phrase.Roots tokens expr rest := by
  induction h using Reads.induct with
  | expression first _ _ ih =>
    rcases ih with ⟨rfl, rfl⟩ | binds
    · exact .inl first
    · exact .inr binds
  | stop _ => exact .inl ⟨rfl, rfl⟩
  | operator found tighter _ _ _ ih =>
    rcases ih with ⟨rfl, rfl⟩ | binds
    · exact .inr ⟨_, _, _, _, _, rfl, found, tighter⟩
    · exact .inr binds
  | _ => trivial

/-- An operand with an operator at its root is an expression in round brackets. -/
theorem group_of_operand {tokens rest : List Token} {left right : Expr} {operator : Token}
    {span : Span} (h : Reads .operand tokens (.binary () left operator right span) rest) :
    ∃ opening inner closing, tokens = opening :: inner ∧ opening.kind = .openParen ∧
      Reads (.expression .lowest) inner (.binary () left operator right span) (closing :: rest) ∧
      closing.kind = .closeParen := by
  cases h with
  | group isOpening inner isClosing => exact ⟨_, _, _, rfl, isOpening, inner, isClosing⟩
  | blockOperand inner => cases inner
  | branchOperand _ inner => cases inner

end Reads

/-! ### Levels of round brackets -/

section Parts

variable {before taken rest : List Token} {left right : Tree (Option Nat)} {place : Nat}
  {operator : Token} {span : Span}

/-- The root of an operand is an operator only inside round brackets. -/
theorem IsPart.lt_bracketLevel
    (h : IsPart .operand before taken rest (.binary (some place) left operator right span)) :
    bracketLevel before < bracketLevel ((before ++ (taken ++ rest)).take place) := by
  obtain ⟨opening, inner, closing, eq, isOpening, reads, isClosing⟩ := h.reads.group_of_operand
  obtain ⟨taken', spans⟩ := reads.spans
  have takenEq : taken = [opening] ++ (taken' ++ [closing]) := by
    have same : taken ++ rest = [opening] ++ (taken' ++ [closing]) ++ rest := by
      rw [eq, spans.tokens_eq]
      simp
    exact List.append_cancel_right same
  have mem : place ∈ keptPlaces before.length taken :=
    (h.isNote_iff place).1 ⟨_, List.mem_cons_self, rfl⟩
  have isFiller : ¬ opening.kind.isKept ∧ ¬ closing.kind.isKept := by
    rw [isOpening, isClosing]
    decide
  rw [takenEq, keptPlaces_split, keptPlaces_split, keptPlaces_cons_of_not_isKept isFiller.1,
    keptPlaces_cons_of_not_isKept isFiller.2, keptPlaces, keptPlaces, List.nil_append,
    List.append_nil] at mem
  obtain ⟨front, token, later, frontEq, -, placeEq⟩ := mem_keptPlaces_iff.1 mem
  have whole : before ++ (taken ++ rest) =
      before ++ [opening] ++ front ++ (token :: (later ++ [closing] ++ rest)) := by
    rw [takenEq, frontEq]
    simp
  have inside : 0 ≤ bracketLevel front := by
    have nonneg := spans.balanced.le_bracketLevel_take front.length
    rwa [frontEq, List.take_left] at nonneg
  rw [whole, List.take_left' (by rw [placeEq, List.length_append]), bracketLevel_append,
    bracketLevel_append, bracketLevel_open isOpening]
  omega

/-- An operator at the root of an expression at a power binds tighter than the power, or it stands
inside round brackets. -/
theorem IsPart.binds_or_lt {power : BindingPower}
    (h : IsPart (.expression power) before taken rest
      (.binary (some place) left operator right span)) :
    (∃ rule, Rules.standardInfix? operator.kind = some rule ∧ power < rule.power) ∨
      bracketLevel before < bracketLevel ((before ++ (taken ++ rest)).take place) := by
  rcases h.reads.root with operand | ⟨_, _, _, _, rule, eq, found, tighter⟩
  · exact .inr (IsPart.lt_bracketLevel { h with reads := operand })
  · injection eq with _ _ eq
    exact .inl ⟨rule, eq ▸ found, tighter⟩

/-- An operator at the root of the left operand of another leaves that one by the power of its own
right operand, or it stands inside round brackets. -/
theorem EndsAt.weaker_or_lt {next : Token} {later : List Token}
    (h : EndsAt before (next :: later) (.binary (some place) left operator right span)) :
    (∃ rule, Rules.standardInfix? operator.kind = some rule ∧
      ∀ rule', Rules.standardInfix? next.kind = some rule' →
        ¬ rule.operandPower < rule'.power) ∨
      bracketLevel before < bracketLevel ((before ++ next :: later).take place) := by
  obtain ⟨front, taken, rfl, part | ⟨_, _, _, _, _, rule, eq, found, part⟩⟩ := h
  · have lt := part.lt_bracketLevel
    rw [← List.append_assoc] at lt
    rw [bracketLevel_append, part.balanced.bracketLevel_eq, Int.add_zero]
    exact .inr lt
  · injection eq with _ _ eq
    obtain ⟨_, _, nextEq, stops⟩ := part.reads.ends
    injection nextEq with nextEq
    exact .inl ⟨rule, eq ▸ found, nextEq ▸ stops⟩

end Parts

/-! ### Operators and the operators in their operands -/

/-- How many round brackets are open at a place, if there is one. -/
def levelAt (tokens : List Token) (note : Option Nat) : Option Int :=
  note.map fun place => bracketLevel (tokens.take place)

/-- An operator stands at its place among some tokens. The operators at the roots of its operands
bind as tightly as they have to, if they stand at the same level of round brackets. -/
structure IsOrdered (tokens : List Token) (note : Option Nat) (left : Tree (Option Nat))
    (operator : Token) (right : Tree (Option Nat)) : Prop where
  stands : ∃ place, note = some place ∧ tokens[place]? = some operator
  left : ∀ note' left' operator' right' span', left = .binary note' left' operator' right' span' →
    levelAt tokens note' = levelAt tokens note →
    Rules.standard.powerOf operator.kind ≤ Rules.standard.powerOf operator'.kind ∧
      (operator'.kind = .caret ∨ operator'.kind = .assignment →
        Rules.standard.powerOf operator.kind < Rules.standard.powerOf operator'.kind)
  right : ∀ note' left' operator' right' span',
    right = .binary note' left' operator' right' span' →
    levelAt tokens note' = levelAt tokens note →
    Rules.standard.powerOf operator.kind < Rules.standard.powerOf operator'.kind ∨
      Rules.standard.powerOf operator.kind = Rules.standard.powerOf operator'.kind ∧
        (operator.kind = .caret ∨ operator.kind = .assignment)

/-- Equal levels are levels of two places. -/
theorem not_lt_of_levelAt_eq {before rest : List Token} {note : Option Nat}
    (same : levelAt (before ++ rest) note = levelAt (before ++ rest) (some before.length)) :
    ∃ place, note = some place ∧
      ¬ bracketLevel before < bracketLevel ((before ++ rest).take place) := by
  cases note with
  | none => cases same
  | some place =>
    have eq : bracketLevel ((before ++ rest).take place) =
        bracketLevel ((before ++ rest).take before.length) := Option.some.inj same
    rw [List.take_left] at eq
    exact ⟨place, rfl, by omega⟩

namespace Rules

variable {kind kind' : TokenKind} {rule rule' : InfixRule}

/-- An operator that the right operand of another takes in. -/
theorem lt_or_eq_of_operandPower_lt (found : standardInfix? kind = some rule)
    (found' : standardInfix? kind' = some rule') (h : rule.operandPower < rule'.power) :
    standard.powerOf kind < standard.powerOf kind' ∨
      standard.powerOf kind = standard.powerOf kind' ∧ (kind = .caret ∨ kind = .assignment) := by
  have nests := nestsRight_powerOf_iff kind
  rw [powerOf_of_standardInfix? found] at nests ⊢
  rw [powerOf_of_standardInfix? found']
  rw [operandPower_of_standardInfix? found] at h
  split at h
  · next right =>
    rw [BindingPower.lt_iff_rank, BindingPower.rank_weaker] at h
    rcases Nat.lt_or_ge rule.power.rank rule'.power.rank with lt | ge
    · exact .inl lt
    · exact .inr ⟨BindingPower.rank_injective (by omega), nests.1 right⟩
  · exact .inl h

/-- An operator that the right operand of another leaves. -/
theorem le_of_not_operandPower_lt (found : standardInfix? kind = some rule)
    (found' : standardInfix? kind' = some rule') (h : ¬ rule.operandPower < rule'.power) :
    standard.powerOf kind' ≤ standard.powerOf kind ∧
      (kind = .caret ∨ kind = .assignment → standard.powerOf kind' < standard.powerOf kind) := by
  have nests := nestsRight_powerOf_iff kind
  have lowest := lowest_lt_of_standardInfix? found
  rw [powerOf_of_standardInfix? found] at nests ⊢
  rw [powerOf_of_standardInfix? found']
  rw [operandPower_of_standardInfix? found] at h
  have above : 0 < rule.power.rank := lowest
  split at h
  · rw [BindingPower.lt_iff_rank, BindingPower.rank_weaker] at h
    have lt : rule'.power.rank < rule.power.rank := by omega
    exact ⟨Nat.le_of_lt lt, fun _ => lt⟩
  · next notRight => exact ⟨Nat.le_of_not_lt h, fun isRight => absurd (nests.2 isRight) notRight⟩

end Rules

theorem IsApplied.isOrdered {rule : InfixRule} {before taken rest : List Token} {operator : Token}
    {left right : Tree (Option Nat)} (h : IsApplied rule before operator taken rest left right) :
    IsOrdered (before ++ operator :: (taken ++ rest)) (some before.length) left operator right where
  stands := by
    refine ⟨before.length, rfl, ?_⟩
    rw [List.getElem?_append_right (Nat.le_refl _), Nat.sub_self]
    rfl
  left := by
    rintro note' left' operator' right' span' rfl same
    obtain ⟨place, rfl, notLt⟩ := not_lt_of_levelAt_eq same
    rcases h.left.weaker_or_lt with ⟨rule', found, leaves⟩ | lt
    · exact Rules.le_of_not_operandPower_lt found h.found (leaves rule h.found)
    · exact absurd lt notLt
  right := by
    rintro note' left' operator' right' span' rfl same
    obtain ⟨place, rfl, notLt⟩ := not_lt_of_levelAt_eq same
    rcases h.right.binds_or_lt with ⟨rule', found, tighter⟩ | lt
    · exact Rules.lt_or_eq_of_operandPower_lt h.found found tighter
    · have notBracket := TokenKind.ne_paren_of_isKept (TokenKind.isKept_of_standardInfix? h.found)
      rw [bracketLevel_append, bracketLevel_other notBracket.1 notBracket.2, Int.add_zero,
        List.append_assoc] at lt
      exact absurd lt notLt

/-- In the tree of a program, each operator stands among the tokens of the source where the order of
the tokens in the tree puts it, and it nests by precedence with the operators in its operands that
stand at the same level of round brackets. -/
theorem parse_nests {σ : Type} [TokenSource σ] {source : σ} {expr : Expr}
    (ok : (parse source).result = .ok expr) :
    expr.inOrder = kept (TokenSource.tokens source) ∧
      ∀ note left operator right span,
        .binary note left operator right span ∈
          (Expr.placed (TokenSource.tokens source) expr).nodes →
        IsOrdered (TokenSource.tokens source) note left operator right := by
  obtain ⟨inOrder, sourced⟩ := parse_sourced ok
  refine ⟨inOrder, ?_⟩
  intro note left operator right span mem
  obtain ⟨rule, before, taken, rest, whole, rfl, applied⟩ := sourced _ mem
  rw [whole]
  exact applied.isOrdered

/-- A difference in brackets, which binds no tighter than the operator before it. -/
theorem parse_nests_difference :
    let source := Scanner.ofSource "8 - (4 - 2) ^ 2 ^ 3" "shell"
    ∃ expr, (parse source).result = .ok expr ∧
      expr.inOrder = kept (TokenSource.tokens source) ∧
        ∀ note left operator right span,
          .binary note left operator right span ∈
            (Expr.placed (TokenSource.tokens source) expr).nodes →
          IsOrdered (TokenSource.tokens source) note left operator right := by
  intro source
  obtain ⟨expr, ok⟩ := exists_ok_of_isOk
    (show (parse source).result.isOk = true by decide +kernel)
  exact ⟨expr, ok, parse_nests ok⟩

end ExprCheck
