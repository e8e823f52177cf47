import ExprCheck.Proofs.Typing.Derivation

/-!
# The type of a cascade of conditions

A conditional with further conditions is a conditional whose other branch is a conditional, so the
checker compares the type of each branch with that of all the branches behind it:

* `Clause`: a condition, the branch that it guards, and the place of the conditional that they
  start.
* `Expr.cascade clauses otherwise`: the conditional that tries the clauses one after the other.
* `hasType_cascade`: a cascade with a last branch has the type that all its branches have.
* `typeCheck_cascade`: the same of the checker, with and without a last branch. Without one, nothing
  but the branch of the last condition may have a value, and the cascade has none.
-/

namespace ExprCheck

/-- The tree is found to have this type. -/
def Expr.ChecksAs (expr : Expr) (ty : Ty) : Prop :=
  ∃ typed, expr.typeCheck.result = .ok typed ∧ typed.note = ty

/-- A condition and the branch that it guards. The place is that of the conditional that starts with
them. -/
structure Clause where
  condition : Expr
  body : Expr
  span : Span

/-- The conditional of a clause alone, which does nothing if the condition fails. -/
def Clause.alone (clause : Clause) : Expr :=
  .ifThen () clause.condition clause.body clause.span

/-- The conditional of a clause with another branch. -/
def Clause.orElse (clause : Clause) (otherwise : Expr) : Expr :=
  .ifElse () clause.condition clause.body otherwise clause.span

/-- The conditional that tries the clauses one after the other, before the last branch. -/
def Expr.cascade (clauses : List Clause) (otherwise : Expr) : Expr :=
  clauses.foldr Clause.orElse otherwise

theorem Expr.checksAs_iff {expr : Expr} {ty : Ty} : expr.ChecksAs ty ↔ HasType expr ty := by
  simp only [ChecksAs, Expr.typeCheck_ok]
  constructor
  · rintro ⟨typed, found, rfl⟩
    exact (TypedAs.of_nodes (infer_sound found)).hasType
  · exact infer_complete

/-! ### Single conditionals -/

namespace Clause

theorem hasType_alone {clause : Clause} {ty : Ty} :
    HasType clause.alone ty ↔
      ty = .void ∧ HasType clause.condition .bool ∧ ∃ ty', HasType clause.body ty' := by
  constructor
  · intro h
    cases h with
    | ifThen condition body => exact ⟨rfl, condition, _, body⟩
  · rintro ⟨rfl, condition, ty', body⟩
    exact .ifThen condition body

theorem hasType_orElse {clause : Clause} {otherwise : Expr} {ty : Ty} :
    HasType (clause.orElse otherwise) ty ↔
      (HasType clause.condition .bool ∧ HasType clause.body ty) ∧ HasType otherwise ty := by
  constructor
  · intro h
    cases h with
    | ifElse condition body otherwise => exact ⟨⟨condition, body⟩, otherwise⟩
  · rintro ⟨⟨condition, body⟩, otherwise⟩
    exact .ifElse condition body otherwise

end Clause

/-! ### Cascades -/

/-- A cascade has the type that all its branches have. -/
theorem hasType_cascade {clauses : List Clause} {otherwise : Expr} {ty : Ty} :
    HasType (.cascade clauses otherwise) ty ↔
      (∀ clause ∈ clauses, HasType clause.condition .bool ∧ HasType clause.body ty) ∧
        HasType otherwise ty := by
  induction clauses with
  | nil => simp [Expr.cascade]
  | cons clause later ih =>
    rw [show Expr.cascade (clause :: later) otherwise = clause.orElse (.cascade later otherwise)
      from rfl, Clause.hasType_orElse, ih, List.forall_mem_cons]
    exact and_assoc.symm

/-- **The type of a cascade.** With a last branch, a cascade has the type that its branches have in
common, if its conditions are truth values. Without one it has no value: then all branches but that
of the last condition are without a value too, and that one may have any type. -/
theorem typeCheck_cascade (earlier : List Clause) (last : Clause) :
    (∀ otherwise ty, (Expr.cascade (earlier ++ [last]) otherwise).ChecksAs ty ↔
      (∀ clause ∈ earlier ++ [last], clause.condition.ChecksAs .bool ∧ clause.body.ChecksAs ty) ∧
        otherwise.ChecksAs ty) ∧
      ∀ ty, (Expr.cascade earlier last.alone).ChecksAs ty ↔
        ty = .void ∧
          (∀ clause ∈ earlier ++ [last],
            clause.condition.ChecksAs .bool ∧ ∃ ty', clause.body.ChecksAs ty') ∧
          ∀ clause ∈ earlier, clause.body.ChecksAs .void := by
  simp only [Expr.checksAs_iff]
  refine ⟨fun otherwise ty => hasType_cascade, fun ty => ?_⟩
  rw [hasType_cascade, Clause.hasType_alone, List.forall_mem_append, List.forall_mem_singleton]
  constructor
  · rintro ⟨all, rfl, condition, body⟩
    exact ⟨rfl, ⟨fun clause mem => ⟨(all clause mem).1, _, (all clause mem).2⟩, condition, body⟩,
      fun clause mem => (all clause mem).2⟩
  · rintro ⟨rfl, ⟨all, condition, body⟩, void⟩
    exact ⟨fun clause mem => ⟨(all clause mem).1, void clause mem⟩, rfl, condition, body⟩

end ExprCheck
