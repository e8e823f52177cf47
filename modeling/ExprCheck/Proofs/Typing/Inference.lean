import ExprCheck.Typing.Infer
import Mathlib.Data.List.Forall2

/-!
# What a successful inference went through

One equivalence for each form of a node says when `Expr.infer` succeeds on it and with which tree:
the parts succeed, the check of the node itself succeeds, and the typed node is made of the typed
parts. Nothing but these equivalences opens the definition of `infer`.

* `Logged.result_bind_ok`, `Logged.result_located_ok`: a success of two steps, and of a check that
  knows its place. `Logged.result_bind_error` is the same of a failure.
* `infer_literal_ok`, ..., `infer_block_ok`: the six forms.
* `inferAll_ok`: a row of trees, element by element.
* `typeCheck_ok`: the entry point adds nothing but a line in the log.
-/

namespace ExprCheck

namespace Logged

variable {α β : Type}

theorem result_bind_ok {first : Logged α} {next : α → Logged β} {value : β} :
    (first >>= next).result = .ok value ↔
      ∃ middle, first.result = .ok middle ∧ (next middle).result = .ok value := by
  rw [result_bind]
  cases first.result with
  | error diagnostic =>
    constructor
    · intro h
      cases h
    · rintro ⟨_, h, _⟩
      cases h
  | ok middle =>
    constructor
    · intro h
      exact ⟨middle, rfl, h⟩
    · rintro ⟨_, ⟨⟩, h⟩
      exact h

theorem result_pure_ok {value value' : α} :
    (pure value : Logged α).result = .ok value' ↔ value' = value := by
  rw [result_pure, Except.ok.injEq, eq_comm]

theorem result_write_ok {entry : LogEntry} {value : Unit} :
    (write entry).result = .ok value ↔ True :=
  ⟨fun _ => trivial, fun _ => rfl⟩

theorem result_located_ok {position : Position} {result : Except Fault α} {value : α} :
    (located position result).result = .ok value ↔ result = .ok value := by
  cases result with
  | error fault => simp only [located, Except.mapError, result_ofExcept, reduceCtorEq]
  | ok value' => simp only [located, Except.mapError, result_ofExcept, Except.ok.injEq]

/-! ### Failures -/

/-- Two steps fail if the first of them does, or the second after it. -/
theorem result_bind_error {first : Logged α} {next : α → Logged β} {diagnostic : Diagnostic} :
    (first >>= next).result = .error diagnostic ↔
      first.result = .error diagnostic ∨
        ∃ value, first.result = .ok value ∧ (next value).result = .error diagnostic := by
  rw [result_bind]
  cases first.result with
  | error diagnostic' =>
    constructor
    · intro h
      cases h
      exact .inl rfl
    · rintro (h | ⟨_, h, _⟩)
      · cases h
        rfl
      · cases h
  | ok value =>
    constructor
    · intro h
      exact .inr ⟨value, rfl, h⟩
    · rintro (h | ⟨_, ⟨⟩, h⟩)
      · cases h
      · exact h

theorem result_pure_error {value : α} {diagnostic : Diagnostic} :
    (pure value : Logged α).result = .error diagnostic ↔ False := by
  rw [result_pure]
  exact iff_of_false (by simp) not_false

theorem result_write_error {entry : LogEntry} {diagnostic : Diagnostic} :
    (write entry).result = .error diagnostic ↔ False :=
  iff_of_false (by simp [write]) not_false

/-- A check that knows its place reports there. -/
theorem result_located_error {position : Position} {result : Except Fault α}
    {diagnostic : Diagnostic} :
    (located position result).result = .error diagnostic ↔
      result = .error diagnostic.fault ∧ diagnostic.position = position := by
  obtain ⟨fault, place⟩ := diagnostic
  cases result with
  | error fault' =>
    simp only [located, Except.mapError, result_ofExcept, Except.error.injEq, Diagnostic.mk.injEq]
    exact and_congr_right fun _ => eq_comm
  | ok value => simp only [located, Except.mapError, result_ofExcept, reduceCtorEq, false_and]

end Logged

namespace Expr

open Logged

theorem infer_literal_ok {note : Unit} {token : Token} {typed : TypedExpr} :
    (infer (.literal note token)).result = .ok typed ↔
      ∃ ty, token.literalType = .ok ty ∧ typed = .literal ty token := by
  simp only [infer, result_bind_ok, result_located_ok, result_pure_ok]

theorem infer_unary_ok {note : Unit} {operator : Token} {operand : Expr} {span : Span}
    {typed : TypedExpr} :
    (infer (.unary note operator operand span)).result = .ok typed ↔
      ∃ operand', (infer operand).result = .ok operand' ∧
        ∃ ty, operator.signedType operand'.note = .ok ty ∧
          typed = .unary ty operator operand' span := by
  simp only [infer, result_bind_ok, result_located_ok, result_pure_ok]

theorem infer_binary_ok {note : Unit} {left right : Expr} {operator : Token} {span : Span}
    {typed : TypedExpr} :
    (infer (.binary note left operator right span)).result = .ok typed ↔
      ∃ left', (infer left).result = .ok left' ∧
        ∃ right', (infer right).result = .ok right' ∧
          ∃ ty, operator.resultType left'.note right'.note = .ok ty ∧
            typed = .binary ty left' operator right' span := by
  simp only [infer, result_bind_ok, result_located_ok, result_write_ok, result_pure_ok, true_and,
    exists_const]

theorem asCondition_ok {condition : Ty} {value : Unit} :
    condition.asCondition = .ok value ↔ condition = .bool := by
  unfold Ty.asCondition
  split
  · next h => exact ⟨fun _ => h, fun _ => rfl⟩
  · next h =>
    constructor
    · intro h'
      cases h'
    · intro h'
      exact absurd h' h

theorem ofBranches_ok {body otherwise ty : Ty} :
    body.ofBranches otherwise = .ok ty ↔ body = ty ∧ otherwise = ty := by
  unfold Ty.ofBranches
  split
  · next h =>
    subst h
    rw [Except.ok.injEq, and_self]
  · next h =>
    constructor
    · intro h'
      cases h'
    · rintro ⟨rfl, rfl⟩
      exact absurd rfl h

theorem infer_ifThen_ok {note : Unit} {condition body : Expr} {span : Span} {typed : TypedExpr} :
    (infer (.ifThen note condition body span)).result = .ok typed ↔
      ∃ condition', (infer condition).result = .ok condition' ∧ condition'.note = .bool ∧
        ∃ body', (infer body).result = .ok body' ∧
          typed = .ifThen .void condition' body' span := by
  simp only [infer, result_bind_ok, result_located_ok, asCondition_ok, result_pure_ok,
    exists_const]

theorem infer_ifElse_ok {note : Unit} {condition body otherwise : Expr} {span : Span}
    {typed : TypedExpr} :
    (infer (.ifElse note condition body otherwise span)).result = .ok typed ↔
      ∃ condition', (infer condition).result = .ok condition' ∧ condition'.note = .bool ∧
        ∃ body', (infer body).result = .ok body' ∧
          ∃ otherwise', (infer otherwise).result = .ok otherwise' ∧
            ∃ ty, (body'.note = ty ∧ otherwise'.note = ty) ∧
              typed = .ifElse ty condition' body' otherwise' span := by
  simp only [infer, result_bind_ok, result_located_ok, asCondition_ok, ofBranches_ok,
    result_pure_ok, exists_const]

/-- A row of trees succeeds when each of them does. -/
theorem inferAll_ok {items : List Expr} {typed : List TypedExpr} :
    (inferAll items).result = .ok typed ↔
      List.Forall₂ (fun item item' => (infer item).result = .ok item') items typed := by
  induction items generalizing typed with
  | nil => simp only [inferAll, result_pure_ok, List.forall₂_nil_left_iff]
  | cons item items ih =>
    simp only [inferAll, result_bind_ok, result_pure_ok, ih, List.forall₂_cons_left_iff]
    constructor
    · rintro ⟨item', first, items', later, rfl⟩
      exact ⟨item', items', first, later, rfl⟩
    · rintro ⟨item', items', first, later, rfl⟩
      exact ⟨item', first, items', later, rfl⟩

theorem infer_block_ok {note : Unit} {items : List Expr} {span : Span} {typed : TypedExpr} :
    (infer (.block note items span)).result = .ok typed ↔
      ∃ items', List.Forall₂ (fun item item' => (infer item).result = .ok item') items items' ∧
        typed = .block (TypedExpr.lastType items') items' span := by
  simp only [infer, result_bind_ok, inferAll_ok, result_pure_ok]

theorem typeCheck_ok {expr : Expr} {typed : TypedExpr} :
    (typeCheck expr).result = .ok typed ↔ (infer expr).result = .ok typed := by
  simp only [typeCheck, result_bind_ok, result_write_ok, result_pure_ok, true_and, exists_const,
    exists_eq_right']

end Expr

end ExprCheck
