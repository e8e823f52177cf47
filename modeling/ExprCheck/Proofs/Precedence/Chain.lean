import ExprCheck.Proofs.Parser.Entry
import ExprCheck.Proofs.Parser.Follow
import ExprCheck.Proofs.Precedence.Split

/-!
# Chains are read by precedence

The parser reads a chain from left to right and applies an operator as soon as it has its operand.
The tree is nevertheless the one that is found by splitting the chain at its weakest operator:

* `Link.spread`: the operators and literals of a chain as tokens.
* `Link.operators_read`: after an operand, the operators of a chain that bind tighter than a power
  are read, and they are applied to the operand as `Link.tree` says.
* `parseExpression_chain`: a chain alone is read as its tree, unless it is refused as too deep.
-/

namespace ExprCheck

namespace Link

/-- An operator and a literal. -/
structure IsLink (link : Link) : Prop where
  isOperator : link.operator.kind ∈ Rules.binaryOperators
  isLiteral : link.operand.kind.isLiteral

/-- Operators and operands as tokens. -/
def spread (links : List Link) : List Token :=
  links.flatMap fun link => [link.operator, link.operand]

theorem spread_cons (link : Link) (links : List Link) :
    spread (link :: links) = link.operator :: link.operand :: spread links :=
  rfl

theorem length_spread (links : List Link) : (spread links).length = 2 * links.length := by
  induction links with
  | nil => rfl
  | cons link links ih =>
    rw [spread_cons, List.length_cons, List.length_cons, List.length_cons, ih]
    omega

/-- The rule of an operator gives its power and the power of its operand. -/
theorem IsLink.rule {link : Link} (h : link.IsLink) :
    ∃ rule, Rules.standardInfix? link.operator.kind = some rule ∧ rule.power = link.power ∧
      rule.operandPower = link.operandPower := by
  obtain ⟨rule, found⟩ := Option.isSome_iff_exists.1 ((Rules.mem_binaryOperators_iff _).1
    h.isOperator)
  have power : rule.power = link.power := by
    show rule.power = Rules.standard.powerOf link.operator.kind
    simp only [Rules.powerOf, Rules.standard, found]
  refine ⟨rule, found, power, ?_⟩
  rw [Rules.operandPower_of_standardInfix? found, power]
  rfl

theorem IsLink.lowest_lt {link : Link} (h : link.IsLink) : .lowest < link.power := by
  obtain ⟨rule, found, power, -⟩ := h.rule
  rw [← power]
  exact Rules.lowest_lt_of_standardInfix? found

/-- An operand is read at no weaker power than the operators before it were. -/
theorem lt_of_operandPower_lt {link : Link} {power power' : BindingPower} (h : power < link.power)
    (h' : link.operandPower < power') : power < power' :=
  Nat.lt_of_lt_of_le h (power_le_of_operandPower_lt h')

/-- The links of a chain whose operators bind tighter than a power, up to the first that does
not. -/
def within (power : BindingPower) (links : List Link) : List Link :=
  links.takeWhile fun link => power < link.power

/-- The links of a chain from the first one on that binds no tighter than a power. -/
def beyond (power : BindingPower) (links : List Link) : List Link :=
  links.dropWhile fun link => power < link.power

theorem lt_of_mem_within {power : BindingPower} {links : List Link} {link : Link}
    (mem : link ∈ within power links) : power < link.power := by
  simpa using List.mem_takeWhile_imp mem

theorem not_lt_of_mem_head?_beyond {power : BindingPower} {links : List Link} {next : Link}
    (mem : next ∈ (beyond power links).head?) : ¬ power < next.power := by
  have stopped := List.head?_dropWhile_not (fun link : Link => decide (power < link.power)) links
  rw [show (links.dropWhile fun link => decide (power < link.power)).head? = some next from mem]
    at stopped
  simpa using stopped

theorem mem_head?_within {power : BindingPower} {links : List Link} {next : Link}
    (mem : next ∈ (within power links).head?) : next ∈ links.head? := by
  cases links with
  | nil => exact mem
  | cons link links =>
    by_cases tighter : power < link.power
    · rwa [within, List.takeWhile_cons_of_pos (by simpa using tighter)] at mem
    · rw [within, List.takeWhile_cons_of_neg (by simpa using tighter)] at mem
      cases mem

/-- What the operand of an operator leaves is all that is left to go on with. -/
theorem within_cons {power : BindingPower} {link : Link} (tighter : power < link.power)
    (links : List Link) :
    within power (link :: links) = link :: (within link.operandPower links ++
        within power (beyond link.operandPower links)) ∧
      beyond power (link :: links) = beyond power (beyond link.operandPower links) := by
  have all : ∀ other ∈ within link.operandPower links, decide (power < other.power) = true :=
    fun other mem => by simpa using lt_of_operandPower_lt tighter (lt_of_mem_within mem)
  have parts : links = within link.operandPower links ++ beyond link.operandPower links :=
    List.takeWhile_append_dropWhile.symm
  constructor
  · rw [within, List.takeWhile_cons_of_pos (by simpa using tighter)]
    exact congrArg _ ((congrArg _ parts).trans (List.takeWhile_append_of_pos all))
  · rw [beyond, List.dropWhile_cons_of_pos (by simpa using tighter)]
    exact (congrArg _ parts).trans (List.dropWhile_append_of_pos all)

/-! ### Chains are read as their trees -/

/-- The operators that bind tighter than a power are read, and no others. -/
theorem operators_read {rest : List Token} (stops : Stops rest) (power : BindingPower)
    (left : Expr) {links : List Link} (areLinks : ∀ link ∈ links, link.IsLink) :
    Reads (.operators power left) (spread links ++ rest) (tree left (within power links))
      (spread (beyond power links) ++ rest) := by
  induction eq : links.length using Nat.strongRecOn generalizing links power left with
  | ind length ih =>
    cases links with
    | nil =>
      rw [within, List.takeWhile_nil, tree_nil]
      exact .stop_of_stops stops power left
    | cons link links =>
      have isLink : link.IsLink := areLinks link List.mem_cons_self
      have areLater : ∀ other ∈ links, other.IsLink := fun other mem =>
        areLinks other (List.mem_cons_of_mem _ mem)
      obtain ⟨rule, found, isPower, isOperandPower⟩ := isLink.rule
      by_cases tighter : power < link.power
      · have shorter : links.length < length := by rw [← eq]; exact Nat.lt_succ_self _
        have operand : Reads (.expression rule.operandPower)
            (link.operand :: (spread links ++ rest))
            (tree (.literal () link.operand) (within link.operandPower links))
            (spread (beyond link.operandPower links) ++ rest) := by
          rw [isOperandPower]
          exact .expression (.literal isLink.isLiteral)
            (ih links.length shorter link.operandPower _ areLater rfl)
        have fewer : (beyond link.operandPower links).length ≤ links.length :=
          (List.dropWhile_sublist _).length_le
        have areFewer : ∀ other ∈ beyond link.operandPower links, other.IsLink := fun other mem =>
          areLater other ((List.dropWhile_sublist _).subset mem)
        have later := ih (beyond link.operandPower links).length (Nat.lt_of_le_of_lt fewer shorter)
          power (link.apply left (tree (.literal () link.operand) (within link.operandPower links)))
          areFewer rfl
        obtain ⟨withinEq, beyondEq⟩ := within_cons tighter links
        rw [withinEq, beyondEq, tree_collapse left isLink.lowest_lt
          (fun other mem => lt_of_mem_within mem)
          (fun other mem => not_lt_of_mem_head?_beyond (mem_head?_within mem))]
        exact .operator found (isPower ▸ tighter) operand later
      · have stays : beyond power (link :: links) = link :: links :=
          List.dropWhile_cons_of_neg (by simpa using tighter)
        have nothing : within power (link :: links) = [] :=
          List.takeWhile_cons_of_neg (by simpa using tighter)
        rw [stays, nothing, tree_nil]
        refine .stop fun rule' found' => ?_
        rw [found] at found'
        obtain rfl := Option.some.inj found'
        rwa [isPower]

end Link

open Link

variable {σ : Type} [TokenSource σ]

/-- A chain of literals and operators alone is read as the tree that has its weakest operator at the
root, unless that tree is refused as too deep. A chain of at most `maxNestingDepth` tokens is never
refused. -/
theorem parseExpression_chain {source : σ} {first last : Token} {links : List Link}
    (isLiteral : first.kind.isLiteral) (areLinks : ∀ link ∈ links, link.IsLink)
    (isEnd : last.kind = .eof)
    (tokens : TokenSource.tokens source = first :: spread links ++ [last]) :
    (parseExpression source).IsTreeOrTooDeep (tree (.literal () first) links) ∧
      (2 * links.length + 1 ≤ maxNestingDepth →
        (parseExpression source).result = .ok (tree (.literal () first) links)) := by
  have all : ∀ link ∈ links, decide (BindingPower.lowest < link.power) = true := fun link mem => by
    simpa using (areLinks link mem).lowest_lt
  have stops : Stops [last] := .of_kind isEnd (by decide) []
  have operators := operators_read stops .lowest (.literal () first) areLinks
  rw [within, List.takeWhile_eq_self_iff.2 all, beyond, List.dropWhile_eq_nil_iff.2 all]
    at operators
  have reads : Reads (.expression .lowest) (TokenSource.tokens source)
      (tree (.literal () first) links) [last] := by
    rw [tokens]
    exact .expression (.literal isLiteral) operators
  refine ⟨parseExpression_complete isEnd reads, fun few => parseExpression_ok isEnd reads ?_⟩
  rw [tokens, List.length_append, List.length_cons, length_spread, List.length_singleton]
  omega

/-- Powers of powers nest to the right. -/
theorem parseExpression_chain_powers :
    let token : TokenKind → Token := fun kind => ⟨kind, "2", Span.empty ⟨0, "shell"⟩⟩
    let link : Link := ⟨token .caret, token .integer⟩
    let source := TokenStream.ofTokens (token .integer :: spread [link, link])
    link.IsLink ∧ (parseExpression source).result = .ok
      (link.apply (.literal () (token .integer))
        (link.apply (.literal () (token .integer)) (.literal () (token .integer)))) := by
  intro token link source
  have isLink : link.IsLink := ⟨by decide, by decide⟩
  have areLinks : ∀ other ∈ [link, link], other.IsLink := by simpa using isLink
  have isTree : tree (.literal () (token .integer)) [link, link] =
      link.apply (.literal () (token .integer))
        (link.apply (.literal () (token .integer)) (.literal () (token .integer))) := by
    have isSplit : IsSplit [] link [link] := ⟨by decide, by simp, by decide⟩
    have isSplit' : IsSplit [] link [] := ⟨by simp, by simp, by simp⟩
    have outer := tree_of_isSplit (.literal () (token .integer)) isSplit
    have inner := tree_of_isSplit (.literal () (token .integer)) isSplit'
    rw [tree_nil, List.nil_append] at outer inner
    rw [outer]
    exact congrArg _ inner
  refine ⟨isLink, ?_⟩
  rw [← isTree]
  exact (parseExpression_chain rfl areLinks (Token.endOfInput_kind ⟨0, "shell"⟩) rfl).2 (by decide)

end ExprCheck
