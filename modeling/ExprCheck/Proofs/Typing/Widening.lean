import ExprCheck.Proofs.Typing.Derivation

/-!
# Floats in the place of integers

Every operator that takes integers takes floats, and a float merges with what an integer merges
with. So a program without two branches to compare goes on having a type if some of its integers
become floats:

* `Ty.Widens`: the same type, or a float for an integer.
* `Token.Widens`, `Tree.Widens`: the same tree, in which some integer leaves have become floats and
  the notes have become wider.
* `resultType_widens`: an operator takes wider operands and gives a wider type.
* `infer_widens`, `typeCheck_widens`: the checker takes a wider program if it takes the program, and
  each node has a wider type.

Two branches must have the same type. So where they are both integers, one of them alone may not
become a float, and the law is about programs without such conditionals.
-/

namespace ExprCheck

/-- The same type, or a float for an integer. -/
inductive Ty.Widens : Ty → Ty → Prop where
  | same (ty : Ty) : Widens ty ty
  | float : Widens .int .float

/-- The same leaf, or a float for an integer that is written in the same way. -/
inductive Token.Widens : Token → Token → Prop where
  | same (token : Token) : Widens token token
  | float {token : Token} : token.kind = .integer → Widens token { token with kind := .float }

/-- The same tree but for some integer leaves, which have become floats. The notes are as wide or
wider. -/
inductive Tree.Widens {α : Type} (wider : α → α → Prop) : Tree α → Tree α → Prop where
  | literal {note note' token token'} : wider note note' → Token.Widens token token' →
      Widens wider (literal note token) (literal note' token')
  | unary {note note' operator operand operand' span} :
      wider note note' → Widens wider operand operand' →
      Widens wider (unary note operator operand span) (unary note' operator operand' span)
  | binary {note note' left left' operator right right' span} :
      wider note note' → Widens wider left left' → Widens wider right right' →
      Widens wider (binary note left operator right span)
        (binary note' left' operator right' span)
  | ifThen {note note' condition condition' body body' span} :
      wider note note' → Widens wider condition condition' → Widens wider body body' →
      Widens wider (ifThen note condition body span) (ifThen note' condition' body' span)
  | ifElse {note note' condition condition' body body' otherwise otherwise' span} :
      wider note note' → Widens wider condition condition' → Widens wider body body' →
      Widens wider otherwise otherwise' →
      Widens wider (ifElse note condition body otherwise span)
        (ifElse note' condition' body' otherwise' span)
  | block {note note' items items' span} :
      wider note note' → List.Forall₂ (Widens wider) items items' →
      Widens wider (block note items span) (block note' items' span)

/-- Whether the root is a conditional with a branch for either case. -/
def Tree.isChoice {α : Type} : Tree α → Bool
  | ifElse .. => true
  | _ => false

/-- No conditional of the tree has a branch for the other case. -/
def Expr.WithoutElse (expr : Expr) : Prop :=
  ∀ node ∈ expr.nodes, node.isChoice = false

theorem Tree.Widens.note {α : Type} {wider : α → α → Prop} {tree tree' : Tree α}
    (h : tree.Widens wider tree') : wider tree.note tree'.note := by
  cases h <;> assumption

/-! ### Types -/

theorem Ty.Widens.numeric {ty ty' : Ty} (h : ty.Widens ty') (numeric : ty = .int ∨ ty = .float) :
    ty' = .int ∨ ty' = .float := by
  cases h with
  | same => exact numeric
  | float => exact .inr rfl

/-- Only an integer becomes wider. -/
theorem Ty.Widens.eq_of_ne_int {ty ty' : Ty} (h : ty.Widens ty') (notInt : ty ≠ .int) :
    ty' = ty := by
  cases h with
  | same => rfl
  | float => exact absurd rfl notInt

/-- What merges goes on merging, into a type that is as wide or wider. -/
theorem Ty.Merges.widens {left left' right right' merged : Ty} (h : Ty.Merges left right merged)
    (wideLeft : left.Widens left') (wideRight : right.Widens right') :
    ∃ merged', Ty.Merges left' right' merged' ∧ merged.Widens merged' := by
  cases h with
  | same =>
    cases wideLeft with
    | same =>
      cases wideRight with
      | same => exact ⟨_, .same _, .same _⟩
      | float => exact ⟨_, .intFloat, .float⟩
    | float =>
      cases wideRight with
      | same => exact ⟨_, .floatInt, .float⟩
      | float => exact ⟨_, .same _, .float⟩
  | intFloat =>
    cases wideRight
    cases wideLeft with
    | same => exact ⟨_, .intFloat, .same _⟩
    | float => exact ⟨_, .same _, .same _⟩
  | floatInt =>
    cases wideLeft
    cases wideRight with
    | same => exact ⟨_, .floatInt, .same _⟩
    | float => exact ⟨_, .same _, .same _⟩

theorem ResultRule.Gives.widens {rule : ResultRule} {merged merged' ty : Ty}
    (h : rule.Gives merged ty) (wide : merged.Widens merged') :
    ∃ ty', rule.Gives merged' ty' ∧ ty.Widens ty' := by
  cases h with
  | merged => exact ⟨merged', .merged merged', wide⟩
  | bool => exact ⟨.bool, .bool merged', .same _⟩

/-! ### Operators and leaves -/

/-- The rules that operators have. -/
theorem OperatorRule.mem_of_ofKind? {kind : TokenKind} {rule : OperatorRule}
    (found : ofKind? kind = some rule) :
    rule ∈ [additive, arithmetic, relational, equality, logical] := by
  cases kind <;> cases found <;> decide

/-- An operator that takes a type takes each wider one. -/
theorem OperatorRule.accepts_widens {kind : TokenKind} {rule : OperatorRule} {ty ty' : Ty}
    (found : ofKind? kind = some rule) (h : rule.accepts ty = true) (wide : ty.Widens ty') :
    rule.accepts ty' = true := by
  cases wide with
  | same => exact h
  | float =>
    have all : ∀ rule ∈ [additive, arithmetic, relational, equality, logical],
        rule.accepts .int = true → rule.accepts .float = true := by decide
    exact all rule (mem_of_ofKind? found) h

theorem resultType_widens {operator : Token} {left left' right right' ty : Ty}
    (h : operator.resultType left right = .ok ty) (wideLeft : left.Widens left')
    (wideRight : right.Widens right') :
    ∃ ty', operator.resultType left' right' = .ok ty' ∧ ty.Widens ty' := by
  obtain ⟨rule, found, accepted, merged, merges, gives⟩ := resultType_ok.1 h
  obtain ⟨merged', merges', wide⟩ := merges.widens wideLeft wideRight
  obtain ⟨ty', gives', wide'⟩ := gives.widens wide
  have takesLeft := OperatorRule.accepts_widens found
    (accepts_eq_true.2 fun types eq => (accepted types eq).1) wideLeft
  have takesRight := OperatorRule.accepts_widens found
    (accepts_eq_true.2 fun types eq => (accepted types eq).2) wideRight
  refine ⟨ty', resultType_ok.2 ⟨rule, found, fun types eq => ?_, merged', merges', gives'⟩, wide'⟩
  exact ⟨accepts_eq_true.1 takesLeft types eq, accepts_eq_true.1 takesRight types eq⟩

theorem signedType_widens {operator : Token} {operand operand' ty : Ty}
    (h : operator.signedType operand = .ok ty) (wide : operand.Widens operand') :
    operator.signedType operand' = .ok operand' ∧ ty.Widens operand' := by
  obtain ⟨rfl, numeric⟩ := signedType_ok.1 h
  exact ⟨signedType_ok.2 ⟨rfl, wide.numeric numeric⟩, wide⟩

theorem literalType_widens {token token' : Token} {ty : Ty} (h : token.literalType = .ok ty)
    (wide : token.Widens token') :
    ∃ ty', token'.literalType = .ok ty' ∧ ty.Widens ty' := by
  cases wide with
  | same => exact ⟨ty, h, .same ty⟩
  | float isInteger =>
    have leaf := literalType_ok.1 h
    rw [isInteger] at leaf
    cases leaf
    exact ⟨.float, literalType_ok.2 .float, .float⟩

/-- The last of some types becomes wider with all of them. -/
theorem getLast?_widens {types types' : List Ty} (h : List.Forall₂ Ty.Widens types types')
    {before before' : Ty} (wide : before.Widens before') :
    (types.getLast?.getD before).Widens (types'.getLast?.getD before') := by
  induction h generalizing before before' with
  | nil => exact wide
  | cons first _ ih =>
    rw [List.getLast?_cons, List.getLast?_cons]
    exact ih first

/-- The type of a block becomes wider with the types of its elements. -/
theorem lastType_widens {items items' : List TypedExpr}
    (h : List.Forall₂ (Tree.Widens Ty.Widens) items items') :
    (TypedExpr.lastType items).Widens (TypedExpr.lastType items') := by
  have types : List.Forall₂ Ty.Widens (items.map Tree.note) (items'.map Tree.note) := by
    rw [List.forall₂_map_left_iff, List.forall₂_map_right_iff]
    exact h.imp fun _ _ => Tree.Widens.note
  rw [lastType_eq, lastType_eq]
  exact getLast?_widens types (.same .void)

/-! ### Trees -/

theorem Expr.WithoutElse.inner {expr : Expr} (h : expr.WithoutElse) :
    ∀ part ∈ expr.inner, Expr.WithoutElse part :=
  (Tree.forall_mem_nodes_iff.1 h).2

namespace Expr

/-- A wider expression has types if the expression has, and they are wider. -/
def GoesOnChecking (expr expr' : Expr) : Prop :=
  ∀ typed, expr.infer.result = .ok typed →
    ∃ typed', expr'.infer.result = .ok typed' ∧ typed.Widens Ty.Widens typed'

/-- A row of expressions goes on being checked if each of them does. -/
theorem inferAll_widens {items items' : List Expr} {typed : List TypedExpr}
    (each : ∀ item ∈ items, ∀ item', item.Widens Eq item' → item.GoesOnChecking item')
    (h : List.Forall₂ (Tree.Widens Eq) items items')
    (ran : List.Forall₂ (fun item item' => item.infer.result = .ok item') items typed) :
    ∃ typed', List.Forall₂ (fun item item' => item.infer.result = .ok item') items' typed' ∧
      List.Forall₂ (Tree.Widens Ty.Widens) typed typed' := by
  induction h generalizing typed with
  | nil =>
    cases ran
    exact ⟨[], .nil, .nil⟩
  | cons wide _ ih =>
    obtain ⟨first, later⟩ := List.forall_mem_cons.1 each
    cases ran with
    | cons ran rans =>
      obtain ⟨item', ran', wide'⟩ := first _ wide _ ran
      obtain ⟨items', rans', wider⟩ := ih later rans
      exact ⟨item' :: items', .cons ran' rans', .cons wide' wider⟩

theorem infer_widens {expr expr' : Expr} (h : expr.Widens Eq expr') (noElse : expr.WithoutElse) :
    expr.GoesOnChecking expr' := by
  induction expr using Tree.induct generalizing expr' with
  | literal note token =>
    cases h with
    | literal _ wide =>
      intro typed ran
      obtain ⟨ty, leaf, rfl⟩ := infer_literal_ok.1 ran
      obtain ⟨ty', leaf', wide'⟩ := literalType_widens leaf wide
      exact ⟨_, infer_literal_ok.2 ⟨ty', leaf', rfl⟩, .literal wide' wide⟩
  | unary note operator operand span ih =>
    cases h with
    | unary _ wide =>
      intro typed ran
      obtain ⟨operand, inner, ty, check, rfl⟩ := infer_unary_ok.1 ran
      obtain ⟨operand', inner', wide⟩ := ih wide (noElse.inner _ List.mem_cons_self) _ inner
      obtain ⟨check', wide'⟩ := signedType_widens check wide.note
      exact ⟨_, infer_unary_ok.2 ⟨operand', inner', _, check', rfl⟩, .unary wide' wide⟩
  | binary note left operator right span ihl ihr =>
    obtain ⟨plainLeft, plainRight⟩ := List.forall_mem_cons.1 noElse.inner
    cases h with
    | binary _ wideLeft wideRight =>
      intro typed ran
      obtain ⟨left, first, right, second, ty, check, rfl⟩ := infer_binary_ok.1 ran
      obtain ⟨left', first', wideLeft⟩ := ihl wideLeft plainLeft _ first
      obtain ⟨right', second', wideRight⟩ :=
        ihr wideRight (plainRight _ List.mem_cons_self) _ second
      obtain ⟨ty', check', wide⟩ := resultType_widens check wideLeft.note wideRight.note
      exact ⟨_, infer_binary_ok.2 ⟨left', first', right', second', ty', check', rfl⟩,
        .binary wide wideLeft wideRight⟩
  | ifThen note condition body span ihc ihb =>
    obtain ⟨plainCondition, plainBody⟩ := List.forall_mem_cons.1 noElse.inner
    cases h with
    | ifThen _ wideCondition wideBody =>
      intro typed ran
      obtain ⟨condition, first, isBool, body, second, rfl⟩ := infer_ifThen_ok.1 ran
      obtain ⟨condition', first', wideCondition⟩ := ihc wideCondition plainCondition _ first
      obtain ⟨body', second', wideBody⟩ :=
        ihb wideBody (plainBody _ List.mem_cons_self) _ second
      have isBool' : condition'.note = .bool :=
        (wideCondition.note.eq_of_ne_int (by rw [isBool]; decide)).trans isBool
      exact ⟨_, infer_ifThen_ok.2 ⟨condition', first', isBool', body', second', rfl⟩,
        .ifThen (.same .void) wideCondition wideBody⟩
  | ifElse note condition body otherwise span =>
    have isChoice := noElse _ (Tree.mem_nodes_self _)
    cases isChoice
  | block note items span ih =>
    cases h with
    | block _ wider =>
      intro typed ran
      obtain ⟨typedItems, elements, rfl⟩ := infer_block_ok.1 ran
      obtain ⟨typedItems', elements', wider'⟩ := inferAll_widens
        (fun item mem _ wide => ih item mem wide (noElse.inner item mem)) wider elements
      exact ⟨_, infer_block_ok.2 ⟨typedItems', elements', rfl⟩,
        .block (lastType_widens wider') wider'⟩

/-- **Floats in the place of integers.** If a program in which no conditional has another branch has
types, then it has types with any of its integers written as floats. Each node has the type that it
had, or is a float where it was an integer. -/
theorem typeCheck_widens {expr expr' : Expr} {typed : TypedExpr} (h : expr.Widens Eq expr')
    (noElse : expr.WithoutElse) (ran : expr.typeCheck.result = .ok typed) :
    ∃ typed', expr'.typeCheck.result = .ok typed' ∧ typed.note.Widens typed'.note ∧
      typed.Widens Ty.Widens typed' := by
  obtain ⟨typed', ran', wide⟩ := infer_widens h noElse typed (typeCheck_ok.1 ran)
  exact ⟨typed', typeCheck_ok.2 ran', wide.note, wide⟩

/-- A conditional and a negation, with floats in the place of one operand of either. The condition
remains a truth value, and the negation becomes a float with the program. -/
theorem typeCheck_widens_negation :
    let place := Span.empty ⟨0, "shell"⟩
    let leaf : TokenKind → Expr := fun kind => .literal () ⟨kind, "1", place⟩
    let less := Tree.binary () (leaf .integer) ⟨.less, "<", place⟩
    let program : TokenKind → Expr := fun kind =>
      .block () [.ifThen () (less (leaf kind) place) (leaf .integer) place,
        .unary () ⟨.dash, "-", place⟩ (leaf kind) place] place
    (program .integer).Widens Eq (program .float) ∧ (program .integer).WithoutElse ∧
      ∃ typed typed', (program .integer).typeCheck.result = .ok typed ∧
        (program .float).typeCheck.result = .ok typed' ∧
        typed.Widens Ty.Widens typed' ∧ typed.note = .int ∧ typed'.note = .float := by
  intro place leaf less program
  have leaves : ∀ {kind}, kind = .integer ∨ kind = .float →
      Tree.Widens Eq (leaf .integer) (leaf kind) := by
    rintro kind (rfl | rfl)
    · exact .literal rfl (.same _)
    · exact .literal rfl (.float rfl)
  have same := leaves (.inl rfl)
  have float := leaves (.inr rfl)
  have wide : (program .integer).Widens Eq (program .float) :=
    .block rfl (.cons (.ifThen rfl (.binary rfl same float) same) (.cons (.unary rfl float) .nil))
  have noElse : (program .integer).WithoutElse := by
    unfold WithoutElse
    decide
  obtain ⟨typed', ran', -, wider⟩ := typeCheck_widens wide noElse rfl
  exact ⟨wide, noElse, _, typed', rfl, ran', wider, rfl, by cases ran'; rfl⟩

/-- Where two branches are compared, a float in one of them alone is refused. -/
example :
    let place := Span.empty ⟨0, "shell"⟩
    let leaf : TokenKind → Expr := fun kind => .literal () ⟨kind, "1", place⟩
    let choice : TokenKind → Expr := fun kind =>
      .ifElse () (leaf .trueWord) (leaf .integer) (leaf kind) place
    (choice .integer).typeCheck.result.toOption.isSome ∧
      (choice .float).typeCheck.result =
        .error ⟨.branchTypeMismatch "Int" "Float", ⟨0, "shell"⟩⟩ :=
  ⟨rfl, rfl⟩

end Expr

end ExprCheck
