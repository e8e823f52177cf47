import ExprCheck.Tree.Basic

/-!
# The nodes of a tree

* `Tree.nodes`: the tree itself and all trees inside it, each before those inside it and in the
  order of the source.
* `Tree.inner`: the trees directly inside a tree.
-/

namespace ExprCheck

namespace Tree

variable {α : Type}

mutual

/-- The tree and the trees inside it, a tree before its parts. -/
def nodes : Tree α → List (Tree α)
  | literal note token => [literal note token]
  | unary note operator operand span => unary note operator operand span :: nodes operand
  | binary note left operator right span =>
    binary note left operator right span :: (nodes left ++ nodes right)
  | ifThen note condition body span =>
    ifThen note condition body span :: (nodes condition ++ nodes body)
  | ifElse note condition body otherwise span =>
    ifElse note condition body otherwise span ::
      (nodes condition ++ nodes body ++ nodes otherwise)
  | block note items span => block note items span :: nodesAll items

/-- The nodes of some trees, one tree after the other. -/
def nodesAll : List (Tree α) → List (Tree α)
  | [] => []
  | item :: items => nodes item ++ nodesAll items

end

theorem nodesAll_eq_flatMap (items : List (Tree α)) : nodesAll items = items.flatMap nodes := by
  induction items with
  | nil => rfl
  | cons item items ih => rw [nodesAll, List.flatMap_cons, ih]

/-- The trees directly inside a tree, in the order of the source. -/
def inner : Tree α → List (Tree α)
  | literal .. => []
  | unary _ _ operand _ => [operand]
  | binary _ left _ right _ => [left, right]
  | ifThen _ condition body _ => [condition, body]
  | ifElse _ condition body otherwise _ => [condition, body, otherwise]
  | block _ items _ => items

theorem nodes_eq_cons (tree : Tree α) : tree.nodes = tree :: nodesAll tree.inner := by
  cases tree <;> simp [nodes, nodesAll, inner]

theorem mem_nodes_self (tree : Tree α) : tree ∈ tree.nodes := by
  cases tree <;> exact List.mem_cons_self

theorem mem_nodes_iff {tree node : Tree α} :
    node ∈ tree.nodes ↔ node = tree ∨ ∃ part ∈ tree.inner, node ∈ part.nodes := by
  rw [nodes_eq_cons, List.mem_cons, nodesAll_eq_flatMap, List.mem_flatMap]

/-- What is inside a tree directly inside another is inside the other. -/
theorem mem_nodes_of_inner {tree part node : Tree α} (h : part ∈ tree.inner)
    (h' : node ∈ part.nodes) : node ∈ tree.nodes :=
  mem_nodes_iff.2 (.inr ⟨part, h, h'⟩)

/-- What holds of all nodes holds of the root and of the nodes of the trees inside it. -/
theorem forall_mem_nodes_iff {tree : Tree α} {holds : Tree α → Prop} :
    (∀ node ∈ tree.nodes, holds node) ↔
      holds tree ∧ ∀ part ∈ tree.inner, ∀ node ∈ part.nodes, holds node := by
  constructor
  · intro all
    exact ⟨all tree (mem_nodes_self tree), fun part mem node inside =>
      all node (mem_nodes_of_inner mem inside)⟩
  · rintro ⟨root, parts⟩ node mem
    rcases mem_nodes_iff.1 mem with rfl | ⟨part, inside, mem⟩
    · exact root
    · exact parts part inside node mem

/-- Induction on a tree, alike for all of its forms. -/
theorem induct_inner {motive : Tree α → Prop}
    (step : ∀ tree : Tree α, (∀ part ∈ tree.inner, motive part) → motive tree) (tree : Tree α) :
    motive tree := by
  induction tree using induct with
  | literal => exact step _ (List.forall_mem_nil _)
  | unary _ _ _ _ ih => exact step _ (List.forall_mem_singleton.2 ih)
  | binary _ _ _ _ _ ihl ihr =>
    exact step _ (List.forall_mem_cons.2 ⟨ihl, List.forall_mem_singleton.2 ihr⟩)
  | ifThen _ _ _ _ ihc ihb =>
    exact step _ (List.forall_mem_cons.2 ⟨ihc, List.forall_mem_singleton.2 ihb⟩)
  | ifElse _ _ _ _ _ ihc ihb iho =>
    exact step _ (List.forall_mem_cons.2
      ⟨ihc, List.forall_mem_cons.2 ⟨ihb, List.forall_mem_singleton.2 iho⟩⟩)
  | block _ _ _ ih => exact step _ ih

/-- What is inside a node of a tree is inside the tree. -/
theorem mem_nodes_trans {tree node inner : Tree α} (h : inner ∈ node.nodes)
    (h' : node ∈ tree.nodes) : inner ∈ tree.nodes := by
  induction tree using induct_inner with
  | step tree ih =>
    rcases mem_nodes_iff.1 h' with rfl | ⟨part, inside, h'⟩
    · exact h
    · exact mem_nodes_of_inner inside (ih part inside h')

end Tree

end ExprCheck
