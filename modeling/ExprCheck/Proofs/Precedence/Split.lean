import ExprCheck.Proofs.Parser.Rule
import ExprCheck.Tree.Basic

/-!
# Chains of operators, split at the weakest

What a chain of operators means, said of the whole chain at once and not from left to right:

* `Link`: an operator and the operand after it.
* `Link.split`: the weakest operator of a chain, the last such, or the first one if it nests to the
  right. `Link.IsSplit` says this without the search.
* `Link.tree`: the tree of a chain, which has that operator at the root.
* `Link.tree_of_isSplit`: the equation that determines it.
* `Link.tree_collapse`: the first operator can be applied first to the tighter ones behind it.
-/

namespace ExprCheck

/-- An operator and the operand after it. -/
structure Link where
  operator : Token
  operand : Token

namespace Link

/-- How tightly the operator binds. -/
def power (link : Link) : BindingPower :=
  Rules.standard.powerOf link.operator.kind

/-- The power at which the operand after the operator is read. -/
def operandPower (link : Link) : BindingPower :=
  if link.power.nestsRight then link.power.weaker else link.power

/-! ### The weakest operator -/

/-- No other operator of a chain is weaker, and of those that are as weak this is the last, or the
first if they nest to the right. -/
structure IsSplit (before : List Link) (link : Link) (after : List Link) : Prop where
  weakest : ∀ other ∈ before ++ after, link.power ≤ other.power
  first : link.power.nestsRight → ∀ other ∈ before, link.power < other.power
  last : ¬ link.power.nestsRight → ∀ other ∈ after, link.power < other.power

/-- A link is nearer to the root than a later one. -/
def Governs (link later : Link) : Prop :=
  link.power < later.power ∨ link.power ≤ later.power ∧ link.power.nestsRight

instance (link later : Link) : Decidable (link.Governs later) :=
  inferInstanceAs (Decidable (_ ∨ _ ∧ _))

/-- A place in a chain: the links before it, the link there and those after it. -/
structure Place where
  before : List Link
  link : Link
  after : List Link

/-- The place of the weakest operator of a chain. -/
def split (link : Link) : List Link → Place
  | [] => ⟨[], link, []⟩
  | next :: links =>
    let later := split next links
    if link.Governs later.link then ⟨[], link, next :: links⟩
    else ⟨link :: later.before, later.link, later.after⟩

theorem split_append (link : Link) (links : List Link) :
    (split link links).before ++ (split link links).link :: (split link links).after =
      link :: links := by
  induction links generalizing link with
  | nil => rfl
  | cons next links ih =>
    rw [split]
    split
    · rfl
    · exact congrArg _ (ih next)

theorem IsSplit.cons {before after : List Link} {link head : Link} (h : IsSplit before link after)
    (later : ¬ head.Governs link) : IsSplit (head :: before) link after := by
  obtain ⟨weaker, notRight⟩ := not_or.1 later
  have le : link.power ≤ head.power := Nat.le_of_not_lt weaker
  refine ⟨?_, ?_, h.last⟩
  · intro other mem
    rcases List.mem_cons.1 mem with rfl | mem
    · exact le
    · exact h.weakest other mem
  · intro right other mem
    rcases List.mem_cons.1 mem with rfl | mem
    · -- As weak as the link, it would nest to the right as the link does and be nearer to the root.
      rcases Nat.lt_or_eq_of_le le with lt | eq
      · exact lt
      · rw [BindingPower.rank_injective eq] at right
        exact absurd ⟨Nat.le_of_eq eq.symm, right⟩ notRight
    · exact h.first right other mem

theorem IsSplit.weakest_of_mem {before after : List Link} {link other : Link}
    (h : IsSplit before link after) (mem : other ∈ before ++ link :: after) :
    link.power ≤ other.power := by
  rcases List.mem_append.1 mem with mem | mem
  · exact h.weakest other (List.mem_append_left _ mem)
  · rcases List.mem_cons.1 mem with rfl | mem
    · exact Nat.le_refl _
    · exact h.weakest other (List.mem_append_right _ mem)

theorem IsSplit.root {before after : List Link} {link head : Link} (h : IsSplit before link after)
    (governs : head.Governs link) : IsSplit [] head (before ++ link :: after) := by
  have le : head.power ≤ link.power := governs.elim Nat.le_of_lt And.left
  refine ⟨fun other mem => Nat.le_trans le (h.weakest_of_mem mem),
    fun _ _ mem => absurd mem List.not_mem_nil, ?_⟩
  intro left other mem
  rcases governs with lt | ⟨-, right⟩
  · exact Nat.lt_of_lt_of_le lt (h.weakest_of_mem mem)
  · exact absurd right left

theorem isSplit_split (link : Link) (links : List Link) :
    IsSplit (split link links).before (split link links).link (split link links).after := by
  induction links generalizing link with
  | nil => exact ⟨by simp [split], by simp [split], by simp [split]⟩
  | cons next links ih =>
    rw [split]
    split
    · next governs =>
      have root := (ih next).root governs
      rwa [split_append] at root
    · next later => exact (ih next).cons later

theorem IsSplit.not_twice {before middle after : List Link} {link link' : Link}
    (h : IsSplit before link (middle ++ link' :: after))
    (h' : IsSplit (before ++ link :: middle) link' after) : False := by
  have le : link.power ≤ link'.power := h.weakest link' (by simp)
  have ge : link'.power ≤ link.power := h'.weakest link (by simp)
  have eq : link.power = link'.power := BindingPower.rank_injective (Nat.le_antisymm le ge)
  by_cases right : link'.power.nestsRight
  · exact absurd (h'.first right link (by simp)) (Nat.not_lt_of_le le)
  · exact absurd (h.last (eq ▸ right) link' (by simp)) (Nat.not_lt_of_le ge)

/-- A chain has only one such place. -/
theorem IsSplit.unique {before after before' after' : List Link} {link link' : Link}
    (h : IsSplit before link after) (h' : IsSplit before' link' after')
    (eq : before ++ link :: after = before' ++ link' :: after') :
    before = before' ∧ link = link' ∧ after = after' := by
  rcases List.append_eq_append_iff.1 eq with
    ⟨middle, rfl, shifted⟩ | ⟨middle, rfl, shifted⟩
  · cases middle with
    | nil => simpa using shifted
    | cons _ middle =>
      obtain ⟨rfl, rfl⟩ := List.cons.inj shifted
      exact (h.not_twice h').elim
  · cases middle with
    | nil => simpa [eq_comm] using shifted
    | cons _ middle =>
      obtain ⟨rfl, rfl⟩ := List.cons.inj shifted
      exact (h'.not_twice h).elim

/-! ### The tree of a chain -/

/-- An operator between two operands. -/
def apply (link : Link) (left right : Expr) : Expr :=
  .binary () left link.operator right ⟨left.span.start, right.span.stop⟩

theorem length_split_before (link : Link) (links : List Link) :
    (split link links).before.length ≤ links.length ∧
      (split link links).after.length ≤ links.length := by
  have := congrArg List.length (split_append link links)
  simp only [List.length_append, List.length_cons] at this
  omega

/-- The tree of a chain that starts with an expression: the weakest operator, between the tree of
the chain before it and that of the chain from its operand on. -/
def tree (first : Expr) : List Link → Expr
  | [] => first
  | link :: links =>
    let place := split link links
    place.link.apply (tree first place.before) (tree (.literal () place.link.operand) place.after)
termination_by links => links.length
decreasing_by
  · exact Nat.lt_succ_of_le (length_split_before link links).1
  · exact Nat.lt_succ_of_le (length_split_before link links).2

@[simp] theorem tree_nil (first : Expr) : tree first [] = first := by
  rw [tree]

theorem tree_of_isSplit (first : Expr) {before after : List Link} {link : Link}
    (h : IsSplit before link after) :
    tree first (before ++ link :: after) =
      link.apply (tree first before) (tree (.literal () link.operand) after) := by
  obtain ⟨head, links, eq⟩ : ∃ head links, before ++ link :: after = head :: links := by
    cases before <;> exact ⟨_, _, rfl⟩
  obtain ⟨rfl, rfl, rfl⟩ := h.unique (isSplit_split head links) (by rw [eq, split_append])
  rw [eq, tree]

/-! ### The first operator -/

theorem IsSplit.append {front before after : List Link} {link : Link}
    (h : IsSplit before link after) (later : ∀ head ∈ front, ¬ head.Governs link) :
    IsSplit (front ++ before) link after := by
  induction front with
  | nil => exact h
  | cons head front ih =>
    exact (ih fun other mem => later other (List.mem_cons_of_mem _ mem)).cons
      (later head List.mem_cons_self)

theorem operandPower_le (link : Link) : link.operandPower ≤ link.power := by
  unfold operandPower
  split
  · rw [BindingPower.le_iff_rank, BindingPower.rank_weaker]
    omega
  · exact Nat.le_refl _

theorem operandPower_lt {link : Link} (isOperator : .lowest < link.power)
    (right : link.power.nestsRight) : link.operandPower < link.power := by
  rw [operandPower, if_pos right, BindingPower.lt_iff_rank, BindingPower.rank_weaker]
  exact Nat.sub_one_lt (Nat.ne_of_gt isOperator)

theorem power_le_of_operandPower_lt {link : Link} {power : BindingPower}
    (h : link.operandPower < power) : link.power ≤ power := by
  unfold operandPower at h
  split at h
  · rw [BindingPower.lt_iff_rank, BindingPower.rank_weaker] at h
    rw [BindingPower.le_iff_rank]
    omega
  · exact Nat.le_of_lt h

/-- Before operators that belong to its operand, the first one is the weakest. -/
theorem isSplit_head {link : Link} {taken : List Link}
    (tighter : ∀ other ∈ taken, link.operandPower < other.power) : IsSplit [] link taken := by
  refine ⟨fun other mem => power_le_of_operandPower_lt (tighter other mem),
    fun _ _ mem => absurd mem List.not_mem_nil, ?_⟩
  intro left other mem
  have := tighter other mem
  rwa [operandPower, if_neg left] at this

/-- An operator that does not belong to the operand of another is nearer to the root, and also than
the operators that do belong to it. -/
theorem not_governs {link next root other : Link} (isOperator : .lowest < link.power)
    (belongs : link.power ≤ other.power) (weaker : ¬ link.operandPower < next.power)
    (weakest : root.power ≤ next.power) : ¬ other.Governs root := by
  have upper : root.power ≤ link.operandPower := Nat.le_trans weakest (Nat.le_of_not_lt weaker)
  have bound := operandPower_le link
  intro governs
  rcases governs with lt | ⟨le, right⟩
  · rw [BindingPower.lt_iff_rank] at lt
    rw [BindingPower.le_iff_rank] at upper bound belongs
    omega
  · rw [BindingPower.le_iff_rank] at upper bound belongs le
    have same : other.power = link.power := BindingPower.rank_injective (by omega)
    have strict := operandPower_lt isOperator (same ▸ right)
    rw [BindingPower.lt_iff_rank] at strict
    omega

/-- The first operator can be applied first, to its operand with the operators that belong to it. -/
theorem tree_collapse (first : Expr) {link : Link} {taken links : List Link}
    (isOperator : .lowest < link.power)
    (tighter : ∀ other ∈ taken, link.operandPower < other.power)
    (weaker : ∀ next ∈ links.head?, ¬ link.operandPower < next.power) :
    tree first (link :: (taken ++ links)) =
      tree (link.apply first (tree (.literal () link.operand) taken)) links := by
  induction eq : links.length using Nat.strongRecOn generalizing links with
  | ind length ih =>
    cases links with
    | nil =>
      rw [List.append_nil, tree_nil]
      have applied := tree_of_isSplit first (isSplit_head tighter)
      rwa [tree_nil] at applied
    | cons next links =>
      have isSplit := isSplit_split next links
      have whole := split_append next links
      generalize split next links = place at isSplit whole
      obtain ⟨before, root, after⟩ := place
      dsimp only at isSplit whole
      have weakest : root.power ≤ next.power :=
        isSplit.weakest_of_mem (by rw [whole]; exact List.mem_cons_self)
      have longer : IsSplit ((link :: taken) ++ before) root after := by
        refine isSplit.append fun other mem => ?_
        refine not_governs isOperator ?_ (weaker next rfl) weakest
        rcases List.mem_cons.1 mem with rfl | mem
        · exact Nat.le_refl _
        · exact power_le_of_operandPower_lt (tighter other mem)
      have shorter : before.length < length := by
        rw [← eq, ← whole, List.length_append, List.length_cons]
        omega
      have weakerBefore : ∀ next ∈ before.head?, ¬ link.operandPower < next.power := by
        intro other mem
        refine weaker other ?_
        rw [← whole, List.head?_append, Option.mem_def.1 mem]
        rfl
      have inner := ih before.length shorter weakerBefore rfl
      have outer := tree_of_isSplit first longer
      rw [List.append_assoc, List.cons_append, List.cons_append] at outer
      rw [← whole, outer, inner, ← tree_of_isSplit _ isSplit]

end Link

end ExprCheck
