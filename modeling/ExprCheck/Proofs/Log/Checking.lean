import ExprCheck.Proofs.Typing.Inference

/-!
# What checking writes to the log

* `Tree.postOrder`: the nodes of a tree, each behind the nodes inside it.
* `TypedExpr.entry?`, `TypedExpr.entries`: what is logged for a node of a typed tree, which is
  nothing but for an operator between its operands, and for several nodes.
* `infer_log`: a tree that is given its types has the entries of its nodes logged, in post-order.
* `typeCheck_log`: and then the type of the whole tree.
-/

namespace ExprCheck

namespace Tree

variable {α : Type}

mutual

/-- The tree and the trees inside it, a tree behind its parts. -/
def postOrder : Tree α → List (Tree α)
  | literal note token => [literal note token]
  | unary note operator operand span => postOrder operand ++ [unary note operator operand span]
  | binary note left operator right span =>
    postOrder left ++ postOrder right ++ [binary note left operator right span]
  | ifThen note condition body span =>
    postOrder condition ++ postOrder body ++ [ifThen note condition body span]
  | ifElse note condition body otherwise span =>
    postOrder condition ++ postOrder body ++ postOrder otherwise ++
      [ifElse note condition body otherwise span]
  | block note items span => postOrderAll items ++ [block note items span]

/-- The nodes of some trees, one tree after the other. -/
def postOrderAll : List (Tree α) → List (Tree α)
  | [] => []
  | item :: items => postOrder item ++ postOrderAll items

end

end Tree

/-- What is logged for a node of a typed tree: the types of the operands of an operator that stands
between them, and the type that it gives. -/
def TypedExpr.entry? : TypedExpr → Option LogEntry
  | .binary ty left operator right _ => some (.operator left.note operator.value right.note ty)
  | _ => none

/-- What is logged for some nodes, one after the other. -/
def TypedExpr.entries (nodes : List TypedExpr) : List LogEntry :=
  nodes.filterMap TypedExpr.entry?

theorem Logged.log_located {α : Type} (position : Position) (result : Except Fault α) :
    (located position result).log = [] :=
  rfl

namespace Expr

open Logged
open TypedExpr (entries)

theorem inferAll_log {items : List Expr} {typed : List TypedExpr}
    (each : ∀ item ∈ items, ∀ item', (infer item).result = .ok item' →
      (infer item).log = entries item'.postOrder)
    (ok : List.Forall₂ (fun item item' => (infer item).result = .ok item') items typed) :
    (inferAll items).log = entries (Tree.postOrderAll typed) := by
  induction ok with
  | nil => rfl
  | @cons item item' items items' first later ih =>
    obtain ⟨one, others⟩ := List.forall_mem_cons.1 each
    rw [inferAll, log_bind_of_ok _ first, log_bind_of_ok _ (inferAll_ok.2 later), log_pure,
      one _ first, ih others, Tree.postOrderAll, entries, entries, entries, List.filterMap_append,
      List.append_nil]

/-- A tree that is given its types has the entries of its nodes logged, in post-order. -/
theorem infer_log {expr : Expr} {typed : TypedExpr} (ok : (infer expr).result = .ok typed) :
    (infer expr).log = entries typed.postOrder := by
  induction expr using Tree.induct generalizing typed with
  | literal note token =>
    obtain ⟨ty, known, rfl⟩ := infer_literal_ok.1 ok
    rw [infer, log_bind_of_ok _ (result_located_ok.2 known)]
    rfl
  | unary note operator operand span ih =>
    obtain ⟨operand', inner, ty, known, rfl⟩ := infer_unary_ok.1 ok
    rw [infer, log_bind_of_ok _ inner, log_bind_of_ok _ (result_located_ok.2 known), ih inner]
    simp [entries, Tree.postOrder, TypedExpr.entry?, log_located, log_pure]
  | binary note left operator right span ihl ihr =>
    obtain ⟨left', first, right', second, ty, known, rfl⟩ := infer_binary_ok.1 ok
    rw [infer, log_bind_of_ok _ first, log_bind_of_ok _ second,
      log_bind_of_ok _ (result_located_ok.2 known), ihl first, ihr second]
    simp [entries, Tree.postOrder, TypedExpr.entry?, log_located]
    rfl
  | ifThen note condition body span ihc ihb =>
    obtain ⟨condition', first, isBool, body', second, rfl⟩ := infer_ifThen_ok.1 ok
    have isCondition : condition'.note.asCondition = .ok () := asCondition_ok.2 isBool
    rw [infer, log_bind_of_ok _ first, log_bind_of_ok _ (result_located_ok.2 isCondition),
      log_bind_of_ok _ second, ihc first, ihb second]
    simp [entries, Tree.postOrder, TypedExpr.entry?, log_located, log_pure]
  | ifElse note condition body otherwise span ihc ihb iho =>
    obtain ⟨condition', first, isBool, body', second, otherwise', third, ty, same, rfl⟩ :=
      infer_ifElse_ok.1 ok
    have isCondition : condition'.note.asCondition = .ok () := asCondition_ok.2 isBool
    rw [infer, log_bind_of_ok _ first, log_bind_of_ok _ (result_located_ok.2 isCondition),
      log_bind_of_ok _ second, log_bind_of_ok _ third,
      log_bind_of_ok _ (result_located_ok.2 (ofBranches_ok.2 same)), ihc first, ihb second,
      iho third]
    simp [entries, Tree.postOrder, TypedExpr.entry?, log_located, log_pure]
  | block note items span ih =>
    obtain ⟨items', all, rfl⟩ := infer_block_ok.1 ok
    rw [infer, log_bind_of_ok _ (inferAll_ok.2 all),
      inferAll_log (fun item mem _ => ih item mem) all]
    simp [entries, Tree.postOrder, TypedExpr.entry?, log_pure]

/-- Then the type of the whole tree is logged. -/
theorem typeCheck_log {expr : Expr} {typed : TypedExpr}
    (ok : (typeCheck expr).result = .ok typed) :
    (typeCheck expr).log = entries typed.postOrder ++ [.checked typed.note] := by
  have inferred := typeCheck_ok.1 ok
  rw [typeCheck, log_bind_of_ok _ inferred, infer_log inferred]
  rfl

end Expr

end ExprCheck
