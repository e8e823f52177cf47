import ExprCheck.Proofs.Typing.Correspondence
import ExprCheck.Proofs.Typing.Derivation

/-!
# The types around a part of a tree

The checker looks at a part of a tree only to find its type. So another part of the same type makes
no difference to the rest:

* `Tree.Frame`: a node with one of the trees directly inside it left out, and `Tree.Context`: the
  frames around a part, wherever it is. `fill` puts a tree in the place of the part.
* `Correspondence.anywhere`: any place corresponds to any other. Outcomes that match up to it are
  two successes or the same fault.
* `Tree.Frame.infer_matches`: what one frame makes of two parts, one case for each form of a frame.
* `Expr.infer_fill_matches`: what a context makes of them, frame by frame.
* `Expr.typeCheck_fill`: parts of the same type can be exchanged.

A fault may be reported at another place, since a condition and a last branch are blamed where they
start, and a part that starts there may be exchanged.
-/

namespace ExprCheck

namespace Tree

variable {α : Type}

/-- A node with one of the trees directly inside it left out. -/
inductive Frame (α : Type) where
  /-- The operand of a sign. -/
  | operand (note : α) (operator : Token) (span : Span)
  /-- The left operand of an operator. -/
  | leftOperand (note : α) (operator : Token) (right : Tree α) (span : Span)
  /-- The right operand of an operator. -/
  | rightOperand (note : α) (left : Tree α) (operator : Token) (span : Span)
  /-- The condition of a conditional without another branch. -/
  | ifCondition (note : α) (body : Tree α) (span : Span)
  /-- The branch of a conditional without another. -/
  | ifBody (note : α) (condition : Tree α) (span : Span)
  /-- The condition of a conditional with two branches. -/
  | choiceCondition (note : α) (body otherwise : Tree α) (span : Span)
  /-- The first of two branches. -/
  | choiceBody (note : α) (condition otherwise : Tree α) (span : Span)
  /-- The second of two branches. -/
  | choiceOtherwise (note : α) (condition body : Tree α) (span : Span)
  /-- An element of a block. -/
  | item (note : α) (before after : List (Tree α)) (span : Span)

namespace Frame

/-- The node with a tree in the place of what was left out. -/
def fill : Frame α → Tree α → Tree α
  | operand note operator span, part => unary note operator part span
  | leftOperand note operator right span, part => binary note part operator right span
  | rightOperand note left operator span, part => binary note left operator part span
  | ifCondition note body span, part => ifThen note part body span
  | ifBody note condition span, part => ifThen note condition part span
  | choiceCondition note body otherwise span, part => ifElse note part body otherwise span
  | choiceBody note condition otherwise span, part => ifElse note condition part otherwise span
  | choiceOtherwise note condition body span, part => ifElse note condition body part span
  | item note before after span, part => block note (before ++ part :: after) span

/-- The frame without its notes. -/
def erase : Frame α → Frame Unit
  | operand _ operator span => operand () operator span
  | leftOperand _ operator right span => leftOperand () operator right.erase span
  | rightOperand _ left operator span => rightOperand () left.erase operator span
  | ifCondition _ body span => ifCondition () body.erase span
  | ifBody _ condition span => ifBody () condition.erase span
  | choiceCondition _ body otherwise span => choiceCondition () body.erase otherwise.erase span
  | choiceBody _ condition otherwise span => choiceBody () condition.erase otherwise.erase span
  | choiceOtherwise _ condition body span => choiceOtherwise () condition.erase body.erase span
  | item _ before after span => item () (before.map Tree.erase) (after.map Tree.erase) span

/-- The note of a node is not that of a part of it. -/
theorem note_fill (frame : Frame α) (part part' : Tree α) :
    (frame.fill part').note = (frame.fill part).note := by
  cases frame <;> rfl

end Frame

/-- The frames around a part of a tree, the outermost first. -/
abbrev Context (α : Type) : Type := List (Frame α)

namespace Context

/-- The tree with another in the place of the part. -/
def fill (context : Context α) (part : Tree α) : Tree α :=
  context.foldr Frame.fill part

/-- The context without its notes. -/
def erase (context : Context α) : Context Unit :=
  context.map Frame.erase

/-- If the parts have the same note, then so have the trees. -/
theorem note_fill (context : Context α) {part part' : Tree α} (same : part'.note = part.note) :
    (context.fill part').note = (context.fill part).note := by
  cases context with
  | nil => exact same
  | cons frame context => exact frame.note_fill (fill context part) (fill context part')

end Context

end Tree

theorem exists_anywhere (position : Position) : ∃ _ : Position, True :=
  ⟨position, trivial⟩

/-- Any place corresponds to any other. -/
def Correspondence.anywhere : Correspondence where
  starts _ _ := True
  stops _ _ := True
  exists_start := exists_anywhere
  exists_stop := exists_anywhere

open ExprCheck.Correspondence (anywhere)
open Logged

/-! ### What is the same on both sides -/

section Sides

variable {α β : Type} {agree : α → β → Prop}

/-- A tree beside the part has the same types whatever the part is. -/
theorem Expr.infer_bind_matches (expr : Expr) {next : TypedExpr → Logged α}
    {next' : TypedExpr → Logged β}
    (h : ∀ typed, typed.erase = expr → (next typed).Matches anywhere agree (next' typed)) :
    (infer expr >>= next).Matches anywhere agree (infer expr >>= next') := by
  have self : (infer expr).Matches anywhere
      (fun typed typed' => typed = typed' ∧ typed.erase = expr) (infer expr) := by
    cases ran : (infer expr).result with
    | ok typed => exact .ok ran ran ⟨rfl, (TypedAs.of_nodes (infer_sound ran)).erase⟩
    | error diagnostic => exact .error ran ran ⟨rfl, trivial⟩
  refine self.bind ?_
  rintro typed _ ⟨rfl, erased⟩
  exact h typed erased

/-- Trees in a row have the same types whatever is before them. -/
theorem Expr.inferAll_matches_self (items : List Expr) :
    (inferAll items).Matches anywhere
      (fun typed typed' => typed = typed' ∧ typed.map Tree.erase = items) (inferAll items) := by
  induction items with
  | nil => exact .pure ⟨rfl, rfl⟩
  | cons item items ih =>
    refine infer_bind_matches item ?_
    rintro typed rfl
    refine ih.bind ?_
    rintro typedItems _ ⟨rfl, rfl⟩
    exact .pure ⟨rfl, rfl⟩

/-- A check of the same types says the same, wherever it reports. -/
theorem Logged.located_bind_matches {γ : Type} (position position' : Position)
    (result : Except Fault γ) {next : γ → Logged α} {next' : γ → Logged β}
    (h : ∀ value, (next value).Matches anywhere agree (next' value)) :
    (located position result >>= next).Matches anywhere agree
      (located position' result >>= next') := by
  refine (matches_located trivial result).bind ?_
  rintro value _ rfl
  exact h value

end Sides

/-! ### One frame -/

namespace Tree.Frame

/-- Two trees that a frame makes of parts that agree. -/
def Joins (frame : Frame Unit) (agree : TypedExpr → TypedExpr → Prop)
    (whole whole' : TypedExpr) : Prop :=
  ∃ (around : Frame Ty) (part part' : TypedExpr), around.erase = frame ∧ agree part part' ∧
    whole = around.fill part ∧ whole' = around.fill part'

variable {agree : TypedExpr → TypedExpr → Prop} {part part' : Expr}
  (h : part.infer.Matches anywhere agree part'.infer)

include h

/-- A row of trees with one of them left out. -/
theorem inferAll_matches (before after : List Expr) :
    (Expr.inferAll (before ++ part :: after)).Matches anywhere
      (fun items items' => ∃ (front back : List TypedExpr) (typed typed' : TypedExpr),
        front.map Tree.erase = before ∧ back.map Tree.erase = after ∧ agree typed typed' ∧
          items = front ++ typed :: back ∧ items' = front ++ typed' :: back)
      (Expr.inferAll (before ++ part' :: after)) := by
  induction before with
  | nil =>
    refine h.bind fun typed typed' agrees => ?_
    refine (Expr.inferAll_matches_self after).bind ?_
    rintro back _ ⟨rfl, erased⟩
    exact .pure ⟨[], back, typed, typed', rfl, erased, agrees, rfl, rfl⟩
  | cons item before ih =>
    refine Expr.infer_bind_matches item ?_
    rintro first rfl
    refine ih.bind ?_
    rintro _ _ ⟨front, back, typed, typed', rfl, erased, agrees, rfl, rfl⟩
    exact .pure ⟨first :: front, back, typed, typed', rfl, erased, agrees, rfl, rfl⟩

omit h in
/-- The type of a row depends on no more than the types of its trees. -/
theorem lastType_append_cons {typed typed' : TypedExpr} (sameType : typed'.note = typed.note)
    (front back : List TypedExpr) :
    TypedExpr.lastType (front ++ typed' :: back) = TypedExpr.lastType (front ++ typed :: back) := by
  simp only [lastType_eq, List.map_append, List.map_cons, sameType]

/-- Parts of the same type, or with the same fault, make trees that are the same around them, or
that have the same fault. -/
theorem infer_matches (sameType : ∀ typed typed', agree typed typed' → typed'.note = typed.note)
    (frame : Frame Unit) :
    (Expr.infer (frame.fill part)).Matches anywhere (frame.Joins agree)
      (Expr.infer (frame.fill part')) := by
  cases frame with
  | operand note operator span =>
    simp only [fill, Expr.infer]
    refine h.bind fun typed typed' agrees => ?_
    rw [sameType _ _ agrees]
    refine located_bind_matches _ _ _ fun ty => .pure ?_
    exact ⟨.operand ty operator span, typed, typed', rfl, agrees, rfl, rfl⟩
  | leftOperand note operator right span =>
    simp only [fill, Expr.infer]
    refine h.bind fun typed typed' agrees => ?_
    refine Expr.infer_bind_matches right ?_
    rintro right rfl
    rw [sameType _ _ agrees]
    refine located_bind_matches _ _ _ fun ty => ?_
    refine (matches_write _ _).bind fun _ _ _ => .pure ?_
    exact ⟨.leftOperand ty operator right span, typed, typed', rfl, agrees, rfl, rfl⟩
  | rightOperand note left operator span =>
    simp only [fill, Expr.infer]
    refine Expr.infer_bind_matches left ?_
    rintro left rfl
    refine h.bind fun typed typed' agrees => ?_
    rw [sameType _ _ agrees]
    refine located_bind_matches _ _ _ fun ty => ?_
    refine (matches_write _ _).bind fun _ _ _ => .pure ?_
    exact ⟨.rightOperand ty left operator span, typed, typed', rfl, agrees, rfl, rfl⟩
  | ifCondition note body span =>
    simp only [fill, Expr.infer]
    refine h.bind fun typed typed' agrees => ?_
    rw [sameType _ _ agrees]
    refine located_bind_matches _ _ _ fun _ => ?_
    refine Expr.infer_bind_matches body ?_
    rintro body rfl
    exact .pure ⟨.ifCondition .void body span, typed, typed', rfl, agrees, rfl, rfl⟩
  | ifBody note condition span =>
    simp only [fill, Expr.infer]
    refine Expr.infer_bind_matches condition ?_
    rintro condition rfl
    refine located_bind_matches _ _ _ fun _ => ?_
    refine h.bind fun typed typed' agrees => .pure ?_
    exact ⟨.ifBody .void condition span, typed, typed', rfl, agrees, rfl, rfl⟩
  | choiceCondition note body otherwise span =>
    simp only [fill, Expr.infer]
    refine h.bind fun typed typed' agrees => ?_
    rw [sameType _ _ agrees]
    refine located_bind_matches _ _ _ fun _ => ?_
    refine Expr.infer_bind_matches body ?_
    rintro body rfl
    refine Expr.infer_bind_matches otherwise ?_
    rintro otherwise rfl
    refine located_bind_matches _ _ _ fun ty => .pure ?_
    exact ⟨.choiceCondition ty body otherwise span, typed, typed', rfl, agrees, rfl, rfl⟩
  | choiceBody note condition otherwise span =>
    simp only [fill, Expr.infer]
    refine Expr.infer_bind_matches condition ?_
    rintro condition rfl
    refine located_bind_matches _ _ _ fun _ => ?_
    refine h.bind fun typed typed' agrees => ?_
    refine Expr.infer_bind_matches otherwise ?_
    rintro otherwise rfl
    rw [sameType _ _ agrees]
    refine located_bind_matches _ _ _ fun ty => .pure ?_
    exact ⟨.choiceBody ty condition otherwise span, typed, typed', rfl, agrees, rfl, rfl⟩
  | choiceOtherwise note condition body span =>
    simp only [fill, Expr.infer]
    refine Expr.infer_bind_matches condition ?_
    rintro condition rfl
    refine located_bind_matches _ _ _ fun _ => ?_
    refine Expr.infer_bind_matches body ?_
    rintro body rfl
    refine h.bind fun typed typed' agrees => ?_
    rw [sameType _ _ agrees]
    refine located_bind_matches _ _ _ fun ty => .pure ?_
    exact ⟨.choiceOtherwise ty condition body span, typed, typed', rfl, agrees, rfl, rfl⟩
  | item note before after span =>
    simp only [fill, Expr.infer]
    refine (inferAll_matches h before after).bind ?_
    rintro _ _ ⟨front, back, typed, typed', rfl, rfl, agrees, rfl, rfl⟩
    rw [lastType_append_cons (sameType _ _ agrees)]
    exact .pure ⟨.item _ front back span, typed, typed', rfl, agrees, rfl, rfl⟩

end Tree.Frame

/-! ### Whole contexts -/

/-- Two trees that are the same around these parts. -/
def Tree.Context.Joins (context : Context Unit) (typed typed' whole whole' : TypedExpr) : Prop :=
  ∃ around : Context Ty, around.erase = context ∧ whole = around.fill typed ∧
    whole' = around.fill typed'

namespace Expr

/-- Parts of the same type make trees that are the same around them, or that have the same fault. -/
theorem infer_fill_matches (context : Tree.Context Unit) {part part' : Expr}
    {typed typed' : TypedExpr} (ran : (infer part).result = .ok typed)
    (ran' : (infer part').result = .ok typed') (sameType : typed'.note = typed.note) :
    (infer (context.fill part)).Matches anywhere (context.Joins typed typed')
      (infer (context.fill part')) := by
  induction context with
  | nil => exact .ok ran ran' ⟨[], rfl, rfl, rfl⟩
  | cons frame context ih =>
    have notes : ∀ whole whole', Tree.Context.Joins context typed typed' whole whole' →
        whole'.note = whole.note := by
      rintro _ _ ⟨around, _, rfl, rfl⟩
      exact around.note_fill sameType
    cases Tree.Frame.infer_matches ih notes frame with
    | error failed failed' same => exact .error failed failed' same
    | ok done done' joined =>
      obtain ⟨outer, _, _, rfl, ⟨around, rfl, rfl, rfl⟩, rfl, rfl⟩ := joined
      exact .ok done done' ⟨outer :: around, rfl, rfl, rfl⟩

/-- **A part of a program matters by its type alone.** Wherever it is, a part can be exchanged for
one of the same type. Both programs then have types, and these are the same at the root and at every
node around the part, or they both have the same fault. -/
theorem typeCheck_fill (context : Tree.Context Unit) {part part' : Expr}
    {typed typed' : TypedExpr} (ran : part.typeCheck.result = .ok typed)
    (ran' : part'.typeCheck.result = .ok typed') (sameType : typed'.note = typed.note) :
    (∃ around : Tree.Context Ty, around.erase = context ∧
        (typeCheck (context.fill part)).result = .ok (around.fill typed) ∧
        (typeCheck (context.fill part')).result = .ok (around.fill typed') ∧
        (around.fill typed').note = (around.fill typed).note) ∨
      ∃ fault position position',
        (typeCheck (context.fill part)).result = .error ⟨fault, position⟩ ∧
        (typeCheck (context.fill part')).result = .error ⟨fault, position'⟩ := by
  have both := typeCheck_matches_of_infer
    (infer_fill_matches context (typeCheck_ok.1 ran) (typeCheck_ok.1 ran') sameType)
  cases both with
  | ok done done' joined =>
    obtain ⟨around, erased, rfl, rfl⟩ := joined
    exact .inl ⟨around, erased, done, done', around.note_fill sameType⟩
  | @error diagnostic diagnostic' failed failed' same =>
    obtain ⟨_, position⟩ := diagnostic
    obtain ⟨fault, position'⟩ := diagnostic'
    obtain rfl := same.fault
    exact .inr ⟨fault, position, position', failed, failed'⟩

/-- A comparison and a truth value as a condition, and two numbers in its place. -/
theorem typeCheck_fill_condition :
    let leaf : TokenKind → UInt32 → Expr := fun kind offset =>
      .literal () ⟨kind, kind.display, Span.empty ⟨offset, "shell"⟩⟩
    let operation : TokenKind → Expr := fun kind =>
      .binary () (leaf .integer 4) ⟨kind, kind.display, Span.empty ⟨6, "shell"⟩⟩ (leaf .float 8)
        ⟨⟨4, "shell"⟩, ⟨9, "shell"⟩⟩
    let context : Tree.Context Unit :=
      [.item () [leaf .string 0] [] (Span.empty ⟨0, "shell"⟩),
        .choiceCondition () (leaf .char 11) (leaf .char 15) (Span.empty ⟨2, "shell"⟩)]
    (∃ typed typed', (operation .less).typeCheck.result = .ok typed ∧
      (leaf .trueWord 6).typeCheck.result = .ok typed' ∧ typed'.note = typed.note ∧
      ∃ around : Tree.Context Ty, around.erase = context ∧
        (typeCheck (context.fill (operation .less))).result = .ok (around.fill typed) ∧
        (typeCheck (context.fill (leaf .trueWord 6))).result = .ok (around.fill typed')) ∧
      (typeCheck (context.fill (operation .plus))).result =
        .error ⟨.nonBooleanCondition "Float", ⟨4, "shell"⟩⟩ ∧
      (typeCheck (context.fill (leaf .float 8))).result =
        .error ⟨.nonBooleanCondition "Float", ⟨8, "shell"⟩⟩ := by
  intro leaf operation context
  refine ⟨⟨_, _, rfl, rfl, rfl, ?_⟩, rfl, rfl⟩
  have less : (operation .less).typeCheck.result = .ok _ := rfl
  have word : (leaf .trueWord 6).typeCheck.result = .ok _ := rfl
  rcases typeCheck_fill context less word rfl
    with ⟨around, erased, done, done', -⟩ | ⟨_, _, _, failed, -⟩
  · exact ⟨around, erased, done, done'⟩
  · cases failed

end Expr

end ExprCheck
