import ExprCheck.Tree.Basic

/-!
# Equality of trees

* `Tree.same`: whether two trees are equal in every note, token and span.
* `Tree.same_eq_true`: it tells exactly that, so equality of trees is decidable.
-/

namespace ExprCheck

namespace Tree

variable {α : Type} [DecidableEq α]

mutual

/-- Whether two trees are equal. -/
def same : Tree α → Tree α → Bool
  | literal note token, literal note' token' => note = note' && token = token'
  | unary note operator operand span, unary note' operator' operand' span' =>
    note = note' && operator = operator' && same operand operand' && span = span'
  | binary note left operator right span, binary note' left' operator' right' span' =>
    note = note' && same left left' && operator = operator' && same right right'
      && span = span'
  | ifThen note condition body span, ifThen note' condition' body' span' =>
    note = note' && same condition condition' && same body body' && span = span'
  | ifElse note condition body otherwise span,
    ifElse note' condition' body' otherwise' span' =>
    note = note' && same condition condition' && same body body' && same otherwise otherwise'
      && span = span'
  | block note items span, block note' items' span' =>
    note = note' && sameAll items items' && span = span'
  | _, _ => false

/-- Whether two lists of trees are equal. -/
def sameAll : List (Tree α) → List (Tree α) → Bool
  | [], [] => true
  | item :: items, item' :: items' => same item item' && sameAll items items'
  | _, _ => false

end

theorem sameAll_eq_true {items : List (Tree α)}
    (same_iff : ∀ item ∈ items, ∀ other, same item other = true ↔ item = other)
    (others : List (Tree α)) : sameAll items others = true ↔ items = others := by
  induction items generalizing others with
  | nil => cases others <;> simp [sameAll]
  | cons item items ih =>
    cases others with
    | nil => simp [sameAll]
    | cons other others =>
      have tail := ih (fun item mem => same_iff item (List.mem_cons_of_mem _ mem)) others
      simp [sameAll, same_iff item List.mem_cons_self other, tail]

/-- `same` holds of equal trees and of no others. -/
theorem same_eq_true (tree other : Tree α) : same tree other = true ↔ tree = other := by
  induction tree using induct generalizing other with
  | literal note token => cases other <;> simp [same]
  | unary note operator operand span ih => cases other <;> simp [same, ih, and_assoc]
  | binary note left operator right span ihl ihr =>
    cases other <;> simp [same, ihl, ihr, and_assoc]
  | ifThen note condition body span ihc ihb => cases other <;> simp [same, ihc, ihb, and_assoc]
  | ifElse note condition body otherwise span ihc ihb iho =>
    cases other <;> simp [same, ihc, ihb, iho, and_assoc]
  | block note items span ih =>
    cases other <;> simp [same, sameAll_eq_true ih, and_assoc]

instance : DecidableEq (Tree α) := fun tree other =>
  decidable_of_iff (same tree other = true) (same_eq_true tree other)

end Tree

end ExprCheck
