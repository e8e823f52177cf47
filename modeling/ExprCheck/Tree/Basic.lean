import ExprCheck.Token.Basic
import ExprCheck.Ty

/-!
# Trees of expressions

* `Tree`: an expression. Each node carries a note, and each node but a literal its place in the
  source; the place of a literal is that of its token.
* `Expr`: a tree without notes, as it is read from a source.
* `TypedExpr`: a tree whose notes are the types of its nodes.
* `Tree.map`, `Tree.erase`: the tree with other notes, or with none.
* `Tree.induct`: induction on a tree, with one hypothesis for each element of a block.

A conditional with further conditions is a conditional whose other branch is a conditional.
-/

namespace ExprCheck

/-- An expression with a note at each node. -/
inductive Tree (α : Type) where
  /-- A leaf, which is the token that it was read from. -/
  | literal (note : α) (token : Token)
  /-- A sign before its operand. -/
  | unary (note : α) (operator : Token) (operand : Tree α) (span : Span)
  /-- An operator between its operands. -/
  | binary (note : α) (left : Tree α) (operator : Token) (right : Tree α) (span : Span)
  /-- A conditional that does nothing if its condition fails. -/
  | ifThen (note : α) (condition body : Tree α) (span : Span)
  /-- A conditional with a branch for either case. -/
  | ifElse (note : α) (condition body otherwise : Tree α) (span : Span)
  /-- Expressions in a row. -/
  | block (note : α) (items : List (Tree α)) (span : Span)

/-- An expression as it is read from a source. -/
abbrev Expr : Type := Tree Unit

/-- An expression with the type of each of its nodes. -/
abbrev TypedExpr : Type := Tree Ty

namespace Tree

variable {α β : Type}

/-- The note at the root. -/
def note : Tree α → α
  | literal note .. | unary note .. | binary note .. | ifThen note .. | ifElse note ..
  | block note .. => note

/-- The place of the whole expression in the source. -/
def span : Tree α → Span
  | literal _ token => token.span
  | unary _ _ _ span | binary _ _ _ _ span | ifThen _ _ _ span | ifElse _ _ _ _ span
  | block _ _ span => span

/-- Where the expression starts. -/
def start (tree : Tree α) : Position :=
  tree.span.start

/-- Where the expression ends. -/
def stop (tree : Tree α) : Position :=
  tree.span.stop

/-! ### Other notes -/

mutual

/-- The tree with other notes. -/
def map (f : α → β) : Tree α → Tree β
  | literal note token => literal (f note) token
  | unary note operator operand span => unary (f note) operator (map f operand) span
  | binary note left operator right span =>
    binary (f note) (map f left) operator (map f right) span
  | ifThen note condition body span => ifThen (f note) (map f condition) (map f body) span
  | ifElse note condition body otherwise span =>
    ifElse (f note) (map f condition) (map f body) (map f otherwise) span
  | block note items span => block (f note) (mapAll f items) span

/-- The trees with other notes. -/
def mapAll (f : α → β) : List (Tree α) → List (Tree β)
  | [] => []
  | item :: items => map f item :: mapAll f items

end

theorem mapAll_eq_map (f : α → β) (items : List (Tree α)) : mapAll f items = items.map (map f) := by
  induction items with
  | nil => rfl
  | cons item items ih => simp [mapAll, ih]

/-- The tree without its notes. -/
def erase (tree : Tree α) : Expr :=
  tree.map fun _ => ()

theorem span_map (f : α → β) (tree : Tree α) : (tree.map f).span = tree.span := by
  cases tree <;> rfl

/-! ### Induction -/

section Induction

variable {motive : Tree α → Prop}
  (literal : ∀ note token, motive (literal note token))
  (unary : ∀ note operator operand span, motive operand →
    motive (unary note operator operand span))
  (binary : ∀ note left operator right span, motive left → motive right →
    motive (binary note left operator right span))
  (ifThen : ∀ note condition body span, motive condition → motive body →
    motive (ifThen note condition body span))
  (ifElse : ∀ note condition body otherwise span, motive condition → motive body →
    motive otherwise → motive (ifElse note condition body otherwise span))
  (block : ∀ note items span, (∀ item ∈ items, motive item) → motive (block note items span))

include literal unary binary ifThen ifElse block

/-- Induction on a tree, where a block may use what holds of each of its elements. -/
@[elab_as_elim]
theorem induct (tree : Tree α) : motive tree :=
  Tree.rec (motive_1 := motive) (motive_2 := fun items => ∀ item ∈ items, motive item)
    literal unary binary ifThen ifElse block
    (fun _ mem => absurd mem List.not_mem_nil)
    (fun _ _ head tail _ mem => (List.mem_cons.1 mem).elim (· ▸ head) (tail _))
    tree

end Induction

end Tree

end ExprCheck
