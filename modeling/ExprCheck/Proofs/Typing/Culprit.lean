import ExprCheck.Proofs.Tree.Nodes
import ExprCheck.Proofs.Typing.Checks

/-!
# Where a fault of the types is reported

* `Expr.ownChecks`: the checks of a node itself, without those of its parts.
* `Expr.hasFault_of_typeCheck`: every report of the checker is one of a node, and the trees that had
  to be checked before it have passed.
* `Tree.culprits`: the positions at which the checks of a node can report. For a leaf and for an
  operator this is its token; a conditional reports at its condition or at its other branch.
* `Expr.typeCheck_error`: every fault that the checker reports is at a culprit of some node.
* `Expr.spans_of_typeCheck`: a tree that it does not report keeps the spans of its nodes.
-/

namespace ExprCheck

/-- Where the check of a node can report a fault. -/
def Tree.culprits {α : Type} : Tree α → List Position
  | .literal _ token => [token.start]
  | .unary _ operator .. => [operator.start]
  | .binary _ _ operator .. => [operator.start]
  | .ifThen _ condition .. => [condition.start]
  | .ifElse _ condition _ otherwise _ => [condition.start, otherwise.start]
  | .block .. => []

namespace Expr

/-! ### The node at fault -/

/-- The checks of a node itself. -/
def ownChecks : Expr → List Check
  | .literal _ token => [.leaf token]
  | .unary _ operator operand _ => [.sign operator operand]
  | .binary _ left operator right _ =>
    [.rule operator left right, .operands operator left right, .merge operator left right]
  | .ifThen _ condition _ _ => [.condition condition]
  | .ifElse _ condition body otherwise _ => [.condition condition, .branches body otherwise]
  | .block .. => []

theorem eq_literal_of_mem_ownChecks {node : Expr} {token : Token}
    (h : .leaf token ∈ ownChecks node) : node = .literal () token := by
  cases node <;> simp_all [ownChecks]

theorem eq_binary_of_mem_ownChecks {node left right : Expr} {operator : Token}
    (h : .rule operator left right ∈ ownChecks node) :
    ∃ span, node = .binary () left operator right span := by
  cases node <;> simp_all [ownChecks]

/-- A report by a check of some node in a tree, before which all checks of its subjects passed. -/
def HasFault (expr : Expr) (diagnostic : Diagnostic) : Prop :=
  ∃ node ∈ expr.nodes, ∃ check ∈ ownChecks node, check.Reports diagnostic ∧
    ∀ subject ∈ check.subjects, ∀ earlier ∈ subject.checks, earlier.Passes

variable {expr part : Expr} {check : Check} {diagnostic : Diagnostic}

theorem HasFault.of_inner (h : HasFault part diagnostic) (mem : part ∈ expr.inner) :
    HasFault expr diagnostic := by
  obtain ⟨node, inside, fault⟩ := h
  exact ⟨node, Tree.mem_nodes_of_inner mem inside, fault⟩

theorem HasFault.of_own (reports : check.Reports diagnostic) (own : check ∈ expr.ownChecks)
    (passes : ∀ subject ∈ check.subjects, ∀ earlier ∈ subject.checks, earlier.Passes) :
    HasFault expr diagnostic :=
  ⟨expr, expr.mem_nodes_self, check, own, reports, passes⟩

theorem firstFault_checksAll {items : List Expr} (h : FirstFault (checksAll items) diagnostic) :
    ∃ item ∈ items, FirstFault item.checks diagnostic := by
  induction items with
  | nil => exact (FirstFault.not_nil h).elim
  | cons item items ih =>
    rw [checksAll, FirstFault.append_iff] at h
    rcases h with first | ⟨-, later⟩
    · exact ⟨item, List.mem_cons_self, first⟩
    · obtain ⟨other, mem, fault⟩ := ih later
      exact ⟨other, List.mem_cons_of_mem _ mem, fault⟩

/-- The first fault of a tree is that of a node whose subjects have passed their checks. -/
theorem hasFault_of_firstFault (h : FirstFault expr.checks diagnostic) :
    HasFault expr diagnostic := by
  induction expr using Tree.induct with
  | literal note token =>
    exact .of_own (FirstFault.singleton_iff.1 h) List.mem_cons_self (List.forall_mem_nil _)
  | unary note operator operand span ih =>
    rw [checks, FirstFault.append_iff, FirstFault.singleton_iff] at h
    rcases h with inner | ⟨passes, own⟩
    · exact (ih inner).of_inner List.mem_cons_self
    · exact .of_own own List.mem_cons_self (List.forall_mem_singleton.2 passes)
  | binary note left operator right span ihl ihr =>
    rw [checks, FirstFault.append_iff, FirstFault.append_iff] at h
    rcases h with first | ⟨passes, second | ⟨passes', own⟩⟩
    · exact (ihl first).of_inner List.mem_cons_self
    · exact (ihr second).of_inner (List.mem_cons_of_mem _ List.mem_cons_self)
    · obtain ⟨check, mem, reports⟩ := own.exists_mem
      have subjects : check.subjects = [left, right] := by
        simp only [List.mem_cons, List.not_mem_nil, or_false] at mem
        rcases mem with rfl | rfl | rfl <;> rfl
      refine .of_own reports mem ?_
      rw [subjects]
      exact List.forall_mem_cons.2 ⟨passes, List.forall_mem_singleton.2 passes'⟩
  | ifThen note condition body span ihc ihb =>
    rw [checks, FirstFault.append_iff, FirstFault.cons_iff] at h
    rcases h with first | ⟨passes, own | ⟨-, second⟩⟩
    · exact (ihc first).of_inner List.mem_cons_self
    · exact .of_own own List.mem_cons_self (List.forall_mem_singleton.2 passes)
    · exact (ihb second).of_inner (List.mem_cons_of_mem _ List.mem_cons_self)
  | ifElse note condition body otherwise span ihc ihb iho =>
    rw [checks, FirstFault.append_iff, FirstFault.cons_iff, FirstFault.append_iff,
      FirstFault.append_iff, FirstFault.singleton_iff] at h
    rcases h with first | ⟨passes, own | ⟨-, second | ⟨passes', third | ⟨passes'', own⟩⟩⟩⟩
    · exact (ihc first).of_inner List.mem_cons_self
    · exact .of_own own List.mem_cons_self (List.forall_mem_singleton.2 passes)
    · exact (ihb second).of_inner (List.mem_cons_of_mem _ List.mem_cons_self)
    · exact (iho third).of_inner (by simp [Tree.inner])
    · exact .of_own own (List.mem_cons_of_mem _ List.mem_cons_self)
        (List.forall_mem_cons.2 ⟨passes', List.forall_mem_singleton.2 passes''⟩)
  | block note items span ih =>
    obtain ⟨item, mem, fault⟩ := firstFault_checksAll h
    exact (ih item mem fault).of_inner mem

theorem hasFault_of_typeCheck (h : (typeCheck expr).result = .error diagnostic) :
    HasFault expr diagnostic :=
  hasFault_of_firstFault ((typeCheck_performs expr diagnostic).1 h)

/-! ### Its position -/

/-- A report at a culprit of one of some nodes. -/
def HasCulprit (nodes : List Expr) (diagnostic : Diagnostic) : Prop :=
  ∃ node ∈ nodes, diagnostic.position ∈ node.culprits

theorem position_mem_culprits {node : Expr} (h : check ∈ ownChecks node) :
    check.position ∈ node.culprits := by
  have all : (ownChecks node).map Check.position ⊆ node.culprits := by
    cases node <;> simp [ownChecks, Tree.culprits, Check.position]
  exact all (List.mem_map_of_mem h)

/-- **A fault of the types is reported at a culprit.** -/
theorem typeCheck_error (h : (typeCheck expr).result = .error diagnostic) :
    HasCulprit expr.nodes diagnostic := by
  obtain ⟨node, mem, check, own, reports, -⟩ := hasFault_of_typeCheck h
  refine ⟨node, mem, ?_⟩
  rw [reports.2]
  exact position_mem_culprits own

/-- The checker moves no node. -/
theorem spans_of_typeCheck {expr : Expr} {typed : TypedExpr}
    (h : (typeCheck expr).result = .ok typed) :
    typed.nodes.map Tree.span = expr.nodes.map Tree.span := by
  have same := infer_sound (typeCheck_ok.1 h)
  have spans : List.Forall₂ (· = ·) (expr.nodes.map Tree.span) (typed.nodes.map Tree.span) := by
    refine List.forall₂_map_left_iff.2 (List.forall₂_map_right_iff.2 (same.imp ?_))
    intro node typed typedAs
    rw [← typedAs.erase]
    exact Tree.span_map _ typed
  exact (List.forall₂_eq_eq_eq ▸ spans : _ = _).symm

end Expr

end ExprCheck
