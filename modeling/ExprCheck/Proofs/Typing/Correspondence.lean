import ExprCheck.Proofs.Tree.Correspondence
import ExprCheck.Typing.Infer

/-!
# The checker reads no place

* `Logged.Matches`: two outcomes that are both a success, with values that agree, or both a failure,
  with reports that match.
* `Logged.Matches.bind`: the law for two steps one after the other.
* `Expr.infer_matches`: trees that match have types that match, or faults that do.
* `Expr.typeCheck_matches`, `Expr.typeCheck_programMatches`: the same of single expressions and of
  programs.
-/

namespace ExprCheck

variable {α β α' β' : Type} {places : Correspondence} {agree : α → β → Prop}

namespace Logged

/-- Two successes with values that agree, or two failures with reports that match. -/
inductive Matches (places : Correspondence) (agree : α → β → Prop) (logged : Logged α)
    (logged' : Logged β) : Prop where
  | ok {value value'} : logged.result = .ok value → logged'.result = .ok value' →
      agree value value' → Matches places agree logged logged'
  | error {diagnostic diagnostic'} : logged.result = .error diagnostic →
      logged'.result = .error diagnostic' → diagnostic.Matches places diagnostic' →
      Matches places agree logged logged'

/-- Two steps one after the other. -/
theorem Matches.bind {agree' : α' → β' → Prop} {first : Logged α'} {first' : Logged β'}
    {next : α' → Logged α} {next' : β' → Logged β} (h : first.Matches places agree' first')
    (goal : ∀ value value', agree' value value' →
      (next value).Matches places agree (next' value')) :
    (first >>= next).Matches places agree (first' >>= next') := by
  cases h with
  | error failed failed' same =>
    refine .error ?_ ?_ same
    · rw [result_bind, failed]
      rfl
    · rw [result_bind, failed']
      rfl
  | @ok value value' done done' agrees =>
    have goesOn : (first >>= next).result = (next value).result := by
      rw [result_bind, done]
      rfl
    have goesOn' : (first' >>= next').result = (next' value').result := by
      rw [result_bind, done']
      rfl
    cases goal value value' agrees with
    | ok last last' agrees => exact .ok (goesOn.trans last) (goesOn'.trans last') agrees
    | error last last' same => exact .error (goesOn.trans last) (goesOn'.trans last') same

theorem Matches.pure {value : α} {value' : β} (agrees : agree value value') :
    (Pure.pure value : Logged α).Matches places agree (Pure.pure value') :=
  .ok rfl rfl agrees

/-- Two lines in the log. -/
theorem matches_write (entry entry' : LogEntry) :
    (write entry).Matches places Eq (write entry') :=
  .ok rfl rfl rfl

/-- A check that knows its place, at places that correspond. -/
theorem matches_located {position position' : Position} (same : places.starts position position')
    (result : Except Fault α) :
    (located position result).Matches places Eq (located position' result) := by
  cases result with
  | ok value => exact .ok rfl rfl rfl
  | error fault => exact .error rfl rfl ⟨rfl, same⟩

end Logged

namespace Token.Matches

variable {token token' : Token}

theorem literalType (h : token.Matches places token') :
    token'.literalType = token.literalType := by
  simp only [Token.literalType, h.kind, h.value]

theorem signedType (h : token.Matches places token') (operand : Ty) :
    token'.signedType operand = token.signedType operand := by
  simp only [Token.signedType, h.value]

theorem resultType (h : token.Matches places token') (left right : Ty) :
    token'.resultType left right = token.resultType left right := by
  simp only [Token.resultType, h.kind, h.value]

end Token.Matches

/-- The type of a block depends on no place. -/
theorem TypedExpr.lastType_of_matches {items items' : List TypedExpr}
    (h : List.Forall₂ (Tree.Matches places) items items') :
    TypedExpr.lastType items' = TypedExpr.lastType items := by
  have notes : items'.map Tree.note = items.map Tree.note :=
    map_eq_of_forall₂ (fun _ _ _ same => Tree.Matches.note same) h
  have byNotes : ∀ items : List TypedExpr,
      lastType items = ((items.map Tree.note).getLast?).getD .void := by
    intro items
    rw [List.getLast?_map, lastType]
    cases items.getLast? <;> rfl
  rw [byNotes, byNotes, notes]

namespace Expr

open Logged

/-- Rows of trees that match, if each of them has types that match. -/
theorem inferAll_matches {items items' : List Expr}
    (each : ∀ item ∈ items, ∀ item', item.Matches places item' →
      (infer item).Matches places (Tree.Matches places) (infer item'))
    (h : List.Forall₂ (Tree.Matches places) items items') :
    (inferAll items).Matches places (List.Forall₂ (Tree.Matches places)) (inferAll items') := by
  induction h with
  | nil => exact .pure .nil
  | @cons item item' items items' same _ ih =>
    obtain ⟨first, later⟩ := List.forall_mem_cons.1 each
    exact (first item' same).bind fun _ _ sameItem =>
      (ih later).bind fun _ _ sameItems => .pure (.cons sameItem sameItems)

/-- Trees that match have types that match, or the same fault at places that correspond. -/
theorem infer_matches {expr expr' : Expr} (h : expr.Matches places expr') :
    (infer expr).Matches places (Tree.Matches places) (infer expr') := by
  induction expr using Tree.induct generalizing expr' with
  | literal note token =>
    cases h with
    | literal token =>
      simp only [infer]
      rw [token.literalType]
      refine (matches_located token.span.start _).bind fun ty _ same => ?_
      subst same
      exact .pure (.literal token)
  | unary note operator operand span ih =>
    cases h with
    | unary operator operand span =>
      simp only [infer]
      refine (ih operand).bind fun operand operand' same => ?_
      rw [operator.signedType, same.note]
      refine (matches_located operator.span.start _).bind fun ty _ sameTy => ?_
      subst sameTy
      exact .pure (.unary operator same span)
  | binary note left operator right span ihl ihr =>
    cases h with
    | binary left operator right span =>
      simp only [infer]
      refine (ihl left).bind fun left left' sameLeft => ?_
      refine (ihr right).bind fun right right' sameRight => ?_
      rw [operator.resultType, operator.value, sameLeft.note, sameRight.note]
      refine (matches_located operator.span.start _).bind fun ty _ sameTy => ?_
      subst sameTy
      exact (matches_write _ _).bind fun _ _ _ => .pure (.binary sameLeft operator sameRight span)
  | ifThen note condition body span ihc ihb =>
    cases h with
    | ifThen condition body span =>
      simp only [infer]
      refine (ihc condition).bind fun condition condition' sameCondition => ?_
      rw [sameCondition.note]
      refine (matches_located sameCondition.span.start _).bind fun _ _ _ => ?_
      exact (ihb body).bind fun body body' sameBody => .pure (.ifThen sameCondition sameBody span)
  | ifElse note condition body otherwise span ihc ihb iho =>
    cases h with
    | ifElse condition body otherwise span =>
      simp only [infer]
      refine (ihc condition).bind fun condition condition' sameCondition => ?_
      rw [sameCondition.note]
      refine (matches_located sameCondition.span.start _).bind fun _ _ _ => ?_
      refine (ihb body).bind fun body body' sameBody => ?_
      refine (iho otherwise).bind fun otherwise otherwise' sameOtherwise => ?_
      rw [sameBody.note, sameOtherwise.note]
      refine (matches_located sameOtherwise.span.start _).bind fun ty _ sameTy => ?_
      subst sameTy
      exact .pure (.ifElse sameCondition sameBody sameOtherwise span)
  | block note items span ih =>
    cases h with
    | block items span =>
      simp only [infer]
      refine (inferAll_matches (fun item mem _ => ih item mem) items).bind
        fun items items' sameItems => ?_
      rw [TypedExpr.lastType_of_matches sameItems]
      exact .pure (.block sameItems span)

/-- The checker does no more than infer the types. -/
theorem typeCheck_matches_of_infer {agree : TypedExpr → TypedExpr → Prop} {expr expr' : Expr}
    (h : (infer expr).Matches places agree (infer expr')) :
    (typeCheck expr).Matches places agree (typeCheck expr') := by
  simp only [typeCheck]
  refine h.bind fun typed typed' same => ?_
  exact (matches_write _ _).bind fun _ _ _ => .pure same

theorem typeCheck_matches {expr expr' : Expr} (h : expr.Matches places expr') :
    (typeCheck expr).Matches places (Tree.Matches places) (typeCheck expr') :=
  typeCheck_matches_of_infer (infer_matches h)

/-- Programs that match have types that are the same up to their places, or the same fault. -/
theorem typeCheck_programMatches {expr expr' : Expr} (h : expr.ProgramMatches places expr') :
    (typeCheck expr).Matches places (fun typed typed' => typed'.unplaced = typed.unplaced)
      (typeCheck expr') := by
  obtain ⟨items, -, -⟩ := h
  refine typeCheck_matches_of_infer ?_
  simp only [infer]
  refine (inferAll_matches (fun _ _ _ => infer_matches) items).bind fun items items' same => ?_
  refine .pure ?_
  rw [Tree.unplaced, Tree.unplaced, TypedExpr.lastType_of_matches same,
    Tree.unplacedAll_eq_of_matches same]

end Expr

end ExprCheck
