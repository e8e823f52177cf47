import ExprCheck.Proofs.Tree.Nodes

/-!
# How high a tree is

* `Tree.height`: the number of nodes on the longest way from the root to a leaf.
* `Tree.charge`: the same without the operators that the way leaves for their left operand and
  without the blocks that are branches of a conditional. A parser goes deeper for the other nodes.
* `Tree.height_le_charge`: where no conditional is and no left operand is higher than the right one,
  the two are the same.
-/

namespace ExprCheck

namespace Tree

variable {α : Type}

mutual

/-- The number of nodes on the longest way from the root to a leaf. -/
def height : Tree α → Nat
  | literal .. => 1
  | unary _ _ operand _ => height operand + 1
  | binary _ left _ right _ => max (height left) (height right) + 1
  | ifThen _ condition body _ => max (height condition) (height body) + 1
  | ifElse _ condition body otherwise _ =>
    max (max (height condition) (height body)) (height otherwise) + 1
  | block _ items _ => heightAll items + 1

/-- The height of the highest of some trees. -/
def heightAll : List (Tree α) → Nat
  | [] => 0
  | item :: items => max (height item) (heightAll items)

end

mutual

/-- The height without operators on the way to a left operand and without blocks that are branches.
Whether the tree is itself a branch is for the conditional around it to say. -/
def charge (isBranch : Bool) : Tree α → Nat
  | literal .. => 1
  | unary _ _ operand _ => charge false operand + 1
  | binary _ left _ right _ => max (charge false left) (charge false right + 1)
  | ifThen _ condition body _ => max (charge false condition) (charge true body) + 1
  | ifElse _ condition body otherwise _ =>
    max (max (charge false condition) (charge true body)) (charge true otherwise) + 1
  | block _ items _ => chargeAll items + if isBranch then 0 else 1

/-- The greatest charge of some trees, none of them a branch. -/
def chargeAll : List (Tree α) → Nat
  | [] => 0
  | item :: items => max (charge false item) (chargeAll items)

end

theorem heightAll_le_iff {items : List (Tree α)} {bound : Nat} :
    heightAll items ≤ bound ↔ ∀ item ∈ items, height item ≤ bound := by
  induction items with
  | nil => simp [heightAll]
  | cons item items ih => rw [heightAll, Nat.max_le, ih, List.forall_mem_cons]

theorem chargeAll_le_iff {items : List (Tree α)} {bound : Nat} :
    chargeAll items ≤ bound ↔ ∀ item ∈ items, charge false item ≤ bound := by
  induction items with
  | nil => simp [chargeAll]
  | cons item items ih => rw [chargeAll, Nat.max_le, ih, List.forall_mem_cons]

theorem charge_true_le (tree : Tree α) : tree.charge true ≤ tree.charge false := by
  cases tree with
  | block => exact Nat.le_succ _
  | _ => exact Nat.le_refl _

/-- A node that the charge of a tree grows with as its height does. -/
def IsCounted : Tree α → Prop
  | literal .. | unary .. | block .. => True
  | binary _ left _ right _ => left.height ≤ right.height
  | ifThen .. | ifElse .. => False

theorem height_le_charge (tree : Tree α) (h : ∀ node ∈ tree.nodes, node.IsCounted) :
    tree.height ≤ tree.charge false := by
  induction tree using induct with
  | literal note token => exact Nat.le_refl 1
  | unary note operator operand span ih =>
    obtain ⟨-, inner⟩ := forall_mem_nodes_iff.1 h
    exact Nat.succ_le_succ (ih (inner operand List.mem_cons_self))
  | binary note left operator right span _ ih =>
    obtain ⟨leans, inner⟩ := forall_mem_nodes_iff.1 h
    have counted := ih (inner right (List.mem_cons_of_mem _ List.mem_cons_self))
    have leans : left.height ≤ right.height := leans
    rw [height, charge]
    omega
  | ifThen note condition body span => exact (h _ List.mem_cons_self).elim
  | ifElse note condition body otherwise span => exact (h _ List.mem_cons_self).elim
  | block note items span ih =>
    obtain ⟨-, inner⟩ := forall_mem_nodes_iff.1 h
    refine Nat.succ_le_succ (heightAll_le_iff.2 fun item mem => ?_)
    exact Nat.le_trans (ih item mem (inner item mem))
      (chargeAll_le_iff.1 (Nat.le_refl _) item mem)

theorem height_pos (tree : Tree α) : 0 < tree.height := by
  cases tree <;> exact Nat.succ_pos _

end Tree

end ExprCheck
