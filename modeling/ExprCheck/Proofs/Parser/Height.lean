import ExprCheck.Parser.Program
import ExprCheck.Proofs.Parser.Entry
import ExprCheck.Proofs.Tree.Height

/-!
# How high a tree the parser builds

The depth of a parser is at most `maxNestingDepth`, but a tree can be higher than that. Behind an
operand the depth is what it was before it, so the operators that follow a deep operand make the
tree higher without making the parser deeper; and a block that is a branch of a conditional is a
node without a level of its own. What the depth bounds is this:

* `triangle`: the number of nodes on a way that may take up the levels from each level on.
* `Parser.room`: the levels below a parser.
* `Expr.Within`: a tree whose charge is a number of levels at most and whose height is at most the
  triangle of that number.
* `Expr.Extends`: such a tree with room for an operator at each level that is left.
* `ParserM.Bounded`: a reader of expressions whose trees are within the room of the parser.
  `expressionWithin_bounded` says this of the parser, by one lemma for each of its rules.
* `parse_height_le`: the bounds for the trees of whole sources.
* `parseExpression_signedSum`: a tree that is higher than `maxNestingDepth`.

The rules of the parser play no part here, and neither does the outcome of a refusal.
-/

namespace ExprCheck

/-- The sum of the numbers up to `n`. -/
def triangle : Nat → Nat
  | 0 => 0
  | n + 1 => triangle n + (n + 1)

theorem triangle_mono {m n : Nat} (h : m ≤ n) : triangle m ≤ triangle n := by
  induction h with
  | refl => exact Nat.le_refl _
  | step _ ih => exact Nat.le_trans ih (Nat.le_add_right _ _)

theorem triangle_eq (n : Nat) : triangle n = n * (n + 1) / 2 := by
  induction n with
  | zero => rfl
  | succ n ih =>
    have product : (n + 1) * (n + 1 + 1) = n * (n + 1) + (n + 1) * 2 := by
      rw [Nat.mul_comm n]
      exact Nat.mul_add (n + 1) n 2
    rw [triangle, ih, product, Nat.add_mul_div_right _ _ (Nat.succ_pos 1)]

/-! ### Trees and levels -/

namespace Expr

/-- A tree that so many levels are enough for: those that it is charged for fit in, and each of
them makes it higher by the levels from there on at most. -/
structure Within (levels : Nat) (expr : Expr) : Prop where
  charge : expr.charge false ≤ levels
  height : expr.height ≤ triangle levels

/-- A tree that was built within `levels` and at `left` levels, to which an operator can be applied
at each of these. -/
structure Extends (levels left : Nat) (expr : Expr) : Prop where
  charge : expr.charge false ≤ levels
  height : expr.height + (left - 1) ≤ triangle levels

variable {levels left : Nat} {expr operand right : Expr}

theorem Extends.within (h : Extends levels left expr) : Within levels expr :=
  ⟨h.charge, Nat.le_trans (Nat.le_add_right _ _) h.height⟩

/-- There is a level for every tree. -/
theorem Within.pos (h : Within levels expr) : 0 < levels := by
  have high := Nat.lt_of_lt_of_le expr.height_pos h.height
  cases levels with
  | zero => exact absurd high (Nat.lt_irrefl 0)
  | succ levels => exact Nat.succ_pos levels

theorem Within.extends (h : Within left expr) : Extends (left + 1) left expr := by
  have charge := h.charge
  have height := h.height
  refine ⟨by omega, ?_⟩
  rw [triangle]
  omega

theorem extends_literal (token : Token) : Extends (left + 1) left (.literal () token) := by
  refine ⟨Nat.succ_le_succ (Nat.zero_le left), ?_⟩
  rw [Tree.height, triangle]
  omega

theorem Within.unary (h : Within left operand) (operator : Token) (span : Span) :
    Extends (left + 1) left (.unary () operator operand span) := by
  have charge := h.charge
  have height := h.height
  have pos := h.pos
  refine ⟨Nat.succ_le_succ charge, ?_⟩
  rw [Tree.height, triangle]
  omega

/-- An operator takes up a level. Its left operand had that level to be built at. -/
theorem Extends.binary (h : Extends levels (left + 1) expr) (h' : Within left right)
    (below : left + 1 ≤ levels) (operator : Token) (span : Span) :
    Extends levels left (.binary () expr operator right span) := by
  have charge := h.charge
  have charge' := h'.charge
  have height := h.height
  have height' := h'.height
  have pos := h'.pos
  have more := triangle_mono below
  rw [triangle] at more
  constructor
  · rw [Tree.charge]
    omega
  · rw [Tree.height]
    omega

/-- A block whose elements are within `levels`. -/
structure IsBlockWithin (levels : Nat) (expr : Expr) : Prop where
  charge : expr.charge true ≤ levels
  charge' : expr.charge false ≤ levels + 1
  height : expr.height ≤ triangle levels + 1

theorem isBlockWithin {items : List Expr} (h : ∀ item ∈ items, Within levels item) (span : Span) :
    IsBlockWithin levels (.block () items span) := by
  have charge := Tree.chargeAll_le_iff.2 fun item mem => (h item mem).charge
  have height := Tree.heightAll_le_iff.2 fun item mem => (h item mem).height
  exact ⟨charge, Nat.succ_le_succ charge, Nat.succ_le_succ height⟩

theorem IsBlockWithin.extends (h : IsBlockWithin left expr) : Extends (left + 1) left expr := by
  have height := h.height
  refine ⟨h.charge', ?_⟩
  rw [triangle]
  omega

variable {condition body otherwise : Expr}

theorem Within.ifThen (h : Within left condition) (h' : IsBlockWithin left body) (span : Span) :
    Extends (left + 1) left (.ifThen () condition body span) := by
  have charge := h.charge
  have charge' := h'.charge
  have height := h.height
  have height' := h'.height
  have pos := h.pos
  constructor
  · rw [Tree.charge]
    omega
  · rw [Tree.height, triangle]
    omega

/-- The other branch has the level of the conditional to be built at, whether it is a block or goes
on with the conditional. -/
theorem Within.ifElse {after : Nat} (h : Within left condition) (h' : IsBlockWithin left body)
    (charge : otherwise.charge true ≤ left)
    (height : otherwise.height + (after - 1) ≤ triangle left + left) (le : after ≤ left)
    (span : Span) : Extends (left + 1) after (.ifElse () condition body otherwise span) := by
  have chargeC := h.charge
  have chargeB := h'.charge
  have heightC := h.height
  have heightB := h'.height
  have pos := h.pos
  constructor
  · rw [Tree.charge]
    omega
  · rw [Tree.height, triangle]
    omega

end Expr

/-! ### Levels and the parser -/

namespace Parser

variable {σ : Type}

/-- The number of levels below a parser. -/
def room (parser : Parser σ) : Nat :=
  maxNestingDepth - parser.depth

theorem room_eq {parser after : Parser σ} (same : after.depth = parser.depth) :
    after.room = parser.room := by
  rw [room, room, same]

/-- A deeper parser has a level less. -/
theorem room_deeper {parser : Parser σ} (h : parser.depth < maxNestingDepth) :
    room { parser with depth := parser.depth + 1 } + 1 = parser.room := by
  show maxNestingDepth - (parser.depth + 1) + 1 = maxNestingDepth - parser.depth
  omega

end Parser

namespace ParserM

open ExprCheck.Expr (Within Extends IsBlockWithin isBlockWithin extends_literal)

variable {σ : Type} [TokenSource σ]

/-- The trees that a step gives and the parsers that it leaves. Of a refusal nothing is said. -/
abbrev Gives {α : Type} (step : ParserM σ α) (done : α → Parser σ → Prop) (parser : Parser σ) :
    Prop :=
  Leads step done (fun _ _ => True) parser

/-- A reader of expressions whose trees are within the room of the parser, which keeps its depth. -/
def Bounded (nested : BindingPower → ParserM σ Expr) : Prop :=
  ∀ power parser, Gives (nested power)
    (fun expr after => Within parser.room expr ∧ after.depth = parser.depth) parser

/-- A step that builds an operand at the level of the parser, or deeper if it is a conditional that
goes on. Operators can follow at the levels that are left. -/
def BuildsOperand (step : ParserM σ Expr) (parser : Parser σ) : Prop :=
  Gives step (fun expr after =>
    Extends (parser.room + 1) after.room expr ∧ after.room ≤ parser.room) parser

variable {nested : BindingPower → ParserM σ Expr} {parser : Parser σ}

theorem literal_builds : BuildsOperand literal parser := by
  simp only [BuildsOperand, Gives, literal, leads_bind, leads_current]
  split
  · simp only [leads_bind, leads_advance, leads_pure]
    exact ⟨extends_literal _, Nat.le_refl _⟩
  · simp only [leads_throw]

theorem sign_builds (bounded : Bounded nested) : BuildsOperand (sign nested) parser := by
  simp only [BuildsOperand, Gives, sign, leads_bind, leads_rules, leads_advance, leads_pure]
  refine (bounded _ parser.passed).mono ?_ fun _ _ _ => trivial
  intro operand after both
  obtain ⟨within, same⟩ := both
  have room : after.room = parser.room := Parser.room_eq same
  rw [room]
  exact ⟨within.unary _ _, Nat.le_refl _⟩

theorem group_builds (bounded : Bounded nested) : BuildsOperand (group nested) parser := by
  simp only [BuildsOperand, Gives, group, leads_bind, leads_advance, leads_expect, leads_pure]
  refine (bounded _ parser.passed).mono ?_ fun _ _ _ => trivial
  intro inner after both
  obtain ⟨within, same⟩ := both
  have room : after.passed.room = parser.room := Parser.room_eq same
  refine ⟨fun _ => ?_, fun _ => trivial⟩
  rw [room]
  exact ⟨within.extends, Nat.le_refl _⟩

theorem itemsUntil_gives (bounded : Bounded nested) (closing : TokenKind) (rounds : Nat)
    (parser : Parser σ) :
    Gives (itemsUntil nested closing rounds) (fun items after =>
      (∀ item ∈ items, Within parser.room item) ∧ after.depth = parser.depth) parser := by
  induction rounds generalizing parser with
  | zero => exact ⟨by simp, rfl⟩
  | succ rounds ih =>
    simp only [Gives, itemsUntil, leads_bind, leads_current]
    split
    · exact ⟨by simp, rfl⟩
    · simp only [leads_bind, leads_pure]
      refine (bounded _ parser).mono ?_ fun _ _ _ => trivial
      intro item middle both
      obtain ⟨within, same⟩ := both
      refine (ih middle).mono ?_ fun _ _ _ => trivial
      intro items after both
      obtain ⟨later, same'⟩ := both
      rw [Parser.room_eq same] at later
      exact ⟨List.forall_mem_cons.2 ⟨within, later⟩, same'.trans same⟩

theorem block_gives (bounded : Bounded nested) (parser : Parser σ) :
    Gives (block nested) (fun expr after =>
      IsBlockWithin parser.room expr ∧ after.depth = parser.depth) parser := by
  simp only [Gives, block, leads_bind, leads_expect, leads_withRemaining, leads_pure]
  refine ⟨fun _ => ?_, fun _ => trivial⟩
  refine (itemsUntil_gives bounded _ _ parser.passed).mono ?_ fun _ _ _ => trivial
  intro items after both
  obtain ⟨within, same⟩ := both
  exact ⟨fun _ => ⟨isBlockWithin within _, same⟩, fun _ => trivial⟩

theorem block_builds (bounded : Bounded nested) : BuildsOperand (block nested) parser := by
  refine (block_gives bounded parser).mono ?_ fun _ _ _ => trivial
  intro expr after both
  obtain ⟨isBlock, same⟩ := both
  rw [Parser.room_eq same]
  exact ⟨isBlock.extends, Nat.le_refl _⟩

/-- Each branch has a level of its own, below that of the branch before it. -/
theorem branchWithin_builds (bounded : Bounded nested) (rounds : Nat) (parser : Parser σ) :
    BuildsOperand (branchWithin nested rounds) parser := by
  induction rounds generalizing parser with
  | zero => trivial
  | succ rounds ih =>
    simp only [BuildsOperand, Gives, branchWithin, leads_bind, leads_advance, leads_current]
    refine (bounded _ parser.passed).mono ?_ fun _ _ _ => trivial
    intro condition middle both
    obtain ⟨isCondition, same⟩ := both
    have isCondition : Within parser.room condition := isCondition
    refine (block_gives bounded middle).mono ?_ fun _ _ _ => trivial
    intro body after both
    obtain ⟨isBody, same'⟩ := both
    have room : after.room = parser.room := Parser.room_eq (same'.trans same)
    rw [Parser.room_eq (same : middle.depth = parser.depth)] at isBody
    have pos := isCondition.pos
    split
    · simp only [leads_bind, leads_descend, leads_pure]
      refine ⟨fun free => ?_, fun _ => trivial⟩
      have deeper := Parser.room_deeper free
      refine (ih { after with depth := after.depth + 1 }).mono ?_ fun _ _ _ => trivial
      intro otherwise last both
      obtain ⟨goesOn, le⟩ := both
      rw [deeper, room] at goesOn
      have height := goesOn.height
      refine ⟨isCondition.ifElse isBody (Nat.le_trans otherwise.charge_true_le goesOn.charge)
        (by omega) (by omega) _, by omega⟩
    · simp only [leads_bind, leads_advance, leads_pure]
      refine (block_gives bounded after.passed).mono ?_ fun _ _ _ => trivial
      intro otherwise last both
      obtain ⟨isOther, same''⟩ := both
      have room' : last.room = parser.room := (Parser.room_eq same'').trans room
      have isOther : IsBlockWithin after.room otherwise := isOther
      rw [room] at isOther
      have height := isOther.height
      rw [room']
      exact ⟨isCondition.ifElse isBody isOther.charge (by omega) (Nat.le_refl _) _,
        Nat.le_refl _⟩
    · rw [leads_pure, room]
      exact ⟨isCondition.ifThen isBody _, Nat.le_refl _⟩

theorem operand_builds (bounded : Bounded nested) (rule : PrefixRule) :
    BuildsOperand (operand nested rule) parser := by
  cases rule with
  | literal => exact literal_builds
  | sign => exact sign_builds bounded
  | group => exact group_builds bounded
  | block => exact block_builds bounded
  | branch => exact branchWithin_builds bounded levels parser
  | misplaced => trivial

/-- Each operator takes up one of the levels that are left. -/
theorem extend_gives (bounded : Bounded nested) (power : BindingPower) (rounds : Nat)
    {total : Nat} {left : Expr} (parser : Parser σ) (h : Extends total parser.room left)
    (below : parser.room ≤ total) :
    Gives (extend nested power rounds left) (fun expr _ => Within total expr) parser := by
  induction rounds generalizing parser left with
  | zero => trivial
  | succ rounds ih =>
    simp only [Gives, extend, leads_bind, leads_rules, leads_current]
    split
    · exact h.within
    · split
      · simp only [leads_bind, leads_descend, application, leads_advance, leads_pure]
        refine ⟨fun free => ?_, fun _ => trivial⟩
        have deeper := Parser.room_deeper free
        rw [← deeper] at h below
        refine (bounded _ _).mono ?_ fun _ _ _ => trivial
        intro right middle both
        obtain ⟨within, same⟩ := both
        have room : middle.room = Parser.room { parser with depth := parser.depth + 1 } :=
          Parser.room_eq same
        rw [← room] at h below
        refine ih middle (h.binary ?_ below _ _) (Nat.le_of_succ_le below)
        rw [room]
        exact within
      · exact h.within

theorem chain_gives (bounded : Bounded nested) (power : BindingPower) (parser : Parser σ) :
    Gives (chain nested power) (fun expr _ => Within parser.room expr) parser := by
  simp only [Gives, chain, leads_bind, leads_rules, leads_current]
  split
  · trivial
  · simp only [leads_bind, leads_descend, leads_write]
    refine ⟨fun free => ?_, fun _ => trivial⟩
    have deeper := Parser.room_deeper free
    refine (operand_builds bounded _).mono ?_ fun _ _ _ => trivial
    intro left middle both
    obtain ⟨builds, le⟩ := both
    have whole : Parser.room
        { parser with
          depth := parser.depth + 1
          log := .operand parser.current.kind parser.current.start.offset :: parser.log } + 1 =
        parser.room := deeper
    rw [whole] at builds
    exact extend_gives bounded power _ middle builds (by omega)

theorem expressionWithin_bounded (rounds : Nat) :
    Bounded (σ := σ) (expressionWithin rounds) := by
  induction rounds with
  | zero => exact fun _ _ => trivial
  | succ rounds ih =>
    intro power parser
    simp only [Gives, expressionWithin, leads_restoringDepth]
    exact (chain_gives ih power parser).mono (fun _ _ within => ⟨within, trivial⟩)
      fun _ _ _ => trivial

end ParserM

/-! ### Whole sources -/

open ParserM

variable {σ : Type} [TokenSource σ]

/-- What `maxNestingDepth` bounds of a tree: the charge, the height by the sum of the numbers up to
it, and the height itself where all nodes are counted. -/
structure Expr.IsBounded (expr : Expr) : Prop where
  charge : expr.charge false ≤ maxNestingDepth
  height : expr.height ≤ maxNestingDepth * (maxNestingDepth + 1) / 2
  counted : (∀ node ∈ expr.nodes, node.IsCounted) → expr.height ≤ maxNestingDepth

theorem Expr.Within.isBounded {expr : Expr} (h : Expr.Within maxNestingDepth expr) :
    Expr.IsBounded expr :=
  ⟨h.charge, triangle_eq maxNestingDepth ▸ h.height,
    fun counted => Nat.le_trans (expr.height_le_charge counted) h.charge⟩

theorem soleExpression_gives (source : σ) :
    Gives soleExpression (fun expr _ => Expr.IsBounded expr)
      (Parser.ofSource Rules.standard source) := by
  simp only [Gives, soleExpression, leads_bind, leads_current]
  refine (expressionWithin_bounded levels _ _).mono ?_ fun _ _ _ => trivial
  intro expr after both
  obtain ⟨within, -⟩ := both
  split
  · exact within.isBounded
  · trivial

theorem program_gives (source : σ) :
    Gives program
      (fun expr _ => ∃ items span, expr = .block () items span ∧ ∀ item ∈ items, Expr.IsBounded item)
      (Parser.ofSource Rules.standard source) := by
  simp only [Gives, program, leads_bind, leads_current, leads_withRemaining, leads_write,
    leads_pure]
  refine (itemsUntil_gives (expressionWithin_bounded levels) _ _ _).mono ?_ fun _ _ _ => trivial
  intro items after both
  obtain ⟨within, -⟩ := both
  exact ⟨items, _, rfl, fun item mem => (within item mem).isBounded⟩

/-- The height of an expression that is read is at most the sum of the numbers up to
`maxNestingDepth`, and on no way to a leaf are there more than `maxNestingDepth` nodes, not counting
operators that it leaves for their left operand and blocks that are branches. The same holds of each
expression of a program. -/
theorem parse_height_le (source : σ) :
    (∀ expr, (parseExpression source).result = .ok expr → Expr.IsBounded expr) ∧
      ∀ expr, (parse source).result = .ok expr → ∃ items span,
        expr = .block () items span ∧ ∀ item ∈ items, Expr.IsBounded item := by
  constructor
  · intro expr h
    obtain ⟨_, isBounded⟩ := Parser.done_of_ok (soleExpression_gives source) h
    exact isBounded
  · intro expr h
    obtain ⟨_, found⟩ := Parser.done_of_ok (program_gives source) h
    exact found

/-- As many signs as there can be before an operand, and an operator after it. -/
def signedSum : List Token :=
  let token : TokenKind → String → Token := fun kind text =>
    ⟨kind, text, Span.empty ⟨0, "shell"⟩⟩
  List.replicate (maxNestingDepth - 1) (token .dash "-") ++
    [token .integer "1", token .plus "+", token .integer "1"]

/-- An operator makes the tree of its deepest possible left operand higher than
`maxNestingDepth`. -/
theorem parseExpression_signedSum :
    (parseExpression (TokenStream.ofTokens signedSum)).result.map Tree.height =
      .ok (maxNestingDepth + 1) := by
  decide +kernel

/-- The bounds at a tree that is higher than `maxNestingDepth`. -/
theorem parse_height_le_signedSum :
    ∃ expr, (parseExpression (TokenStream.ofTokens signedSum)).result = .ok expr ∧
      Expr.IsBounded expr := by
  obtain ⟨expr, ok⟩ := exists_ok_of_isOk
    (show (parseExpression (TokenStream.ofTokens signedSum)).result.isOk = true by decide +kernel)
  exact ⟨expr, ok, (parse_height_le (TokenStream.ofTokens signedSum)).1 expr ok⟩

end ExprCheck
