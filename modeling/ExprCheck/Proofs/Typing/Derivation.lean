import ExprCheck.Proofs.Tree.Nodes
import ExprCheck.Proofs.Typing.Inference

/-!
# The typing rules

The rules of the language as relations, stated without the checker:

* `LeafType`, `Ty.Merges`, `ResultRule.Gives`: the types of leaves, the types that two types merge
  into, and the type that an operator makes of a merged type.
* `HasType`: the type of an expression, one rule for each form of a node.
* `typeCheck_iff_hasType`: the checker succeeds exactly on the expressions that have a type. Its
  tree is then the expression itself with, at each node, the type that the rules give that node.

The rules do not say in which order the parts of an expression are looked at, and they give an
expression at most one type (`HasType.unique`).
-/

namespace ExprCheck

/-- The types of leaves, by the kind of their token. -/
inductive LeafType : TokenKind → Ty → Prop where
  | integer : LeafType .integer .int
  | float : LeafType .float .float
  | char : LeafType .char .char
  | string : LeafType .string .string
  | trueWord : LeafType .trueWord .bool
  | falseWord : LeafType .falseWord .bool

/-- Two types and the type that holds the values of both. -/
inductive Ty.Merges : Ty → Ty → Ty → Prop where
  | same (ty : Ty) : Merges ty ty ty
  | intFloat : Merges .int .float .float
  | floatInt : Merges .float .int .float

/-- The type that an operator gives for operands whose types merge into the first type. -/
inductive ResultRule.Gives : ResultRule → Ty → Ty → Prop where
  | merged (ty : Ty) : Gives .merged ty ty
  | bool (ty : Ty) : Gives .bool ty .bool

/-- An expression has a type. -/
inductive HasType : Expr → Ty → Prop where
  | literal {note token ty} :
      LeafType token.kind ty → HasType (.literal note token) ty
  | unary {note operator operand span ty} :
      HasType operand ty → ty = .int ∨ ty = .float →
      HasType (.unary note operator operand span) ty
  | binary {note left operator right span rule leftType rightType merged ty} :
      HasType left leftType → HasType right rightType →
      OperatorRule.ofKind? operator.kind = some rule →
      (∀ types, rule.accepted? = some types → leftType ∈ types ∧ rightType ∈ types) →
      Ty.Merges leftType rightType merged → rule.result.Gives merged ty →
      HasType (.binary note left operator right span) ty
  | ifThen {note condition body span ty} :
      HasType condition .bool → HasType body ty →
      HasType (.ifThen note condition body span) .void
  | ifElse {note condition body otherwise span ty} :
      HasType condition .bool → HasType body ty → HasType otherwise ty →
      HasType (.ifElse note condition body otherwise span) ty
  | block {note items span types} :
      List.Forall₂ HasType items types →
      HasType (.block note items span) (types.getLast?.getD .void)

/-! ### The checks of single nodes -/

theorem literalType_ok {token : Token} {ty : Ty} :
    token.literalType = .ok ty ↔ LeafType token.kind ty := by
  obtain ⟨kind, value, span⟩ := token
  constructor
  · intro h
    cases kind <;> cases h <;> constructor
  · intro h
    cases h <;> rfl

theorem signedType_ok {operator : Token} {operand ty : Ty} :
    operator.signedType operand = .ok ty ↔ ty = operand ∧ (ty = .int ∨ ty = .float) := by
  cases operand <;> cases ty <;> simp [Token.signedType, Ty.isNumeric]

theorem merge?_eq_some {left right merged : Ty} :
    left.merge? right = some merged ↔ Ty.Merges left right merged := by
  constructor
  · intro h
    cases left <;> cases right <;> cases h <;> constructor
  · intro h
    cases h with
    | same => exact Ty.merge?_self left
    | intFloat => rfl
    | floatInt => rfl

theorem accepts_eq_true {rule : OperatorRule} {ty : Ty} :
    rule.accepts ty = true ↔ ∀ types, rule.accepted? = some types → ty ∈ types := by
  unfold OperatorRule.accepts
  cases rule.accepted? with
  | none => simp
  | some types => simp

theorem gives_iff {rule : OperatorRule} {merged ty : Ty} :
    rule.result.Gives merged ty ↔ rule.resultType merged = ty := by
  unfold OperatorRule.resultType
  cases rule.result with
  | merged => exact ⟨fun h => by cases h; rfl, fun h => h ▸ .merged merged⟩
  | bool => exact ⟨fun h => by cases h; rfl, fun h => h ▸ .bool merged⟩

theorem resultType_ok {operator : Token} {left right ty : Ty} :
    operator.resultType left right = .ok ty ↔
      ∃ rule, OperatorRule.ofKind? operator.kind = some rule ∧
        (∀ types, rule.accepted? = some types → left ∈ types ∧ right ∈ types) ∧
        ∃ merged, Ty.Merges left right merged ∧ rule.result.Gives merged ty := by
  unfold Token.resultType
  cases found : OperatorRule.ofKind? operator.kind with
  | none => simp
  | some rule =>
    have accepted : (rule.accepts left && rule.accepts right) = true ↔
        ∀ types, rule.accepted? = some types → left ∈ types ∧ right ∈ types := by
      rw [Bool.and_eq_true, accepts_eq_true, accepts_eq_true]
      exact ⟨fun h types eq => ⟨h.1 types eq, h.2 types eq⟩,
        fun h => ⟨fun types eq => (h types eq).1, fun types eq => (h types eq).2⟩⟩
    simp only [Option.some.injEq, exists_eq_left', ← accepted, gives_iff, ← merge?_eq_some]
    split
    · next h =>
      cases left.merge? right with
      | none => simp
      | some merged => simp [h]
    · next h => simp [h]

/-! ### The checker follows the rules -/

/-- A node of an expression and the same node with the type that the rules give it. -/
structure TypedAs (node : Expr) (typed : TypedExpr) : Prop where
  erase : typed.erase = node
  hasType : HasType node typed.note

/-- If the nodes of two trees correspond, then so do the trees. -/
theorem TypedAs.of_nodes {expr : Expr} {typed : TypedExpr}
    (h : List.Forall₂ TypedAs expr.nodes typed.nodes) : TypedAs expr typed := by
  cases expr <;> cases typed <;> exact (List.forall₂_cons.1 h).1

theorem TypedAs.nodesAll {items : List Expr} {typed : List TypedExpr}
    (h : List.Forall₂ (fun item item' => List.Forall₂ TypedAs item.nodes item'.nodes) items typed) :
    List.Forall₂ TypedAs (Tree.nodesAll items) (Tree.nodesAll typed) := by
  induction h with
  | nil => exact .nil
  | cons first _ ih => exact List.rel_append first ih

/-- The type of a block is the last of the types of its elements. -/
theorem lastType_eq (items : List TypedExpr) :
    TypedExpr.lastType items = (items.map Tree.note).getLast?.getD .void := by
  unfold TypedExpr.lastType
  rw [List.getLast?_map]
  cases items.getLast? with
  | none => rfl
  | some last => rfl

/-- The nodes of an inferred tree are those of the expression, with the types that the rules give
them. -/
theorem infer_sound {expr : Expr} {typed : TypedExpr} (h : expr.infer.result = .ok typed) :
    List.Forall₂ TypedAs expr.nodes typed.nodes := by
  induction expr using Tree.induct generalizing typed with
  | literal note token =>
    obtain ⟨ty, leaf, rfl⟩ := Expr.infer_literal_ok.1 h
    exact .cons ⟨rfl, .literal (literalType_ok.1 leaf)⟩ .nil
  | unary note operator operand span ih =>
    obtain ⟨operand', inner, ty, check, rfl⟩ := Expr.infer_unary_ok.1 h
    obtain ⟨erase, hasType⟩ := TypedAs.of_nodes (ih inner)
    obtain ⟨rfl, numeric⟩ := signedType_ok.1 check
    refine .cons ⟨?_, .unary hasType numeric⟩ (ih inner)
    rw [← erase]
    rfl
  | binary note left operator right span ihl ihr =>
    obtain ⟨left', first, right', second, ty, check, rfl⟩ := Expr.infer_binary_ok.1 h
    obtain ⟨eraseLeft, leftType⟩ := TypedAs.of_nodes (ihl first)
    obtain ⟨eraseRight, rightType⟩ := TypedAs.of_nodes (ihr second)
    obtain ⟨rule, found, accepted, merged, merges, gives⟩ := resultType_ok.1 check
    refine .cons ⟨?_, .binary leftType rightType found accepted merges gives⟩
      (List.rel_append (ihl first) (ihr second))
    rw [← eraseLeft, ← eraseRight]
    rfl
  | ifThen note condition body span ihc ihb =>
    obtain ⟨condition', first, isBool, body', second, rfl⟩ := Expr.infer_ifThen_ok.1 h
    obtain ⟨eraseCondition, conditionType⟩ := TypedAs.of_nodes (ihc first)
    obtain ⟨eraseBody, bodyType⟩ := TypedAs.of_nodes (ihb second)
    refine .cons ⟨?_, .ifThen (isBool ▸ conditionType) bodyType⟩
      (List.rel_append (ihc first) (ihb second))
    rw [← eraseCondition, ← eraseBody]
    rfl
  | ifElse note condition body otherwise span ihc ihb iho =>
    obtain ⟨condition', first, isBool, body', second, otherwise', third, ty, ⟨same, same'⟩, rfl⟩ :=
      Expr.infer_ifElse_ok.1 h
    obtain ⟨eraseCondition, conditionType⟩ := TypedAs.of_nodes (ihc first)
    obtain ⟨eraseBody, bodyType⟩ := TypedAs.of_nodes (ihb second)
    obtain ⟨eraseOtherwise, otherwiseType⟩ := TypedAs.of_nodes (iho third)
    refine .cons ⟨?_, .ifElse (isBool ▸ conditionType) (same ▸ bodyType) (same' ▸ otherwiseType)⟩
      (List.rel_append (List.rel_append (ihc first) (ihb second)) (iho third))
    rw [← eraseCondition, ← eraseBody, ← eraseOtherwise]
    rfl
  | block note items span ih =>
    obtain ⟨items', elements, rfl⟩ := Expr.infer_block_ok.1 h
    have inner : List.Forall₂ (fun item item' => List.Forall₂ TypedAs item.nodes item'.nodes)
        items items' :=
      ((List.forall₂_and_left items items').2
        ⟨fun item mem typed => @ih item mem typed, elements⟩).imp fun _ _ both => both.1 _ both.2
    have roots : List.Forall₂ TypedAs items items' := inner.imp fun _ _ => TypedAs.of_nodes
    refine .cons ⟨?_, ?_⟩ (TypedAs.nodesAll inner)
    · have erased : items'.map Tree.erase = items := by
        rw [← List.forall₂_eq_eq_eq, List.forall₂_map_left_iff]
        exact roots.flip.imp fun _ _ both => both.erase
      rw [← erased, Tree.erase, Tree.map, Tree.mapAll_eq_map]
      rfl
    · have types : List.Forall₂ HasType items (items'.map Tree.note) :=
        List.forall₂_map_right_iff.2 (roots.imp fun _ _ both => both.hasType)
      rw [show (Tree.block (TypedExpr.lastType items') items' span).note
        = TypedExpr.lastType items' from rfl, lastType_eq]
      exact .block types

/-- A row of expressions, each of which the checker finds a type for if it has one. -/
theorem inferAll_complete {items : List Expr} {types : List Ty}
    (complete : ∀ item ∈ items, ∀ ty, HasType item ty →
      ∃ typed, item.infer.result = .ok typed ∧ typed.note = ty)
    (h : List.Forall₂ HasType items types) :
    ∃ typed : List TypedExpr,
      List.Forall₂ (fun item item' => item.infer.result = .ok item') items typed ∧
        typed.map Tree.note = types := by
  induction h with
  | nil => exact ⟨[], .nil, rfl⟩
  | cons hasType _ ih =>
    obtain ⟨item', first, rfl⟩ := complete _ List.mem_cons_self _ hasType
    obtain ⟨items', later, rfl⟩ := ih fun item mem => complete item (List.mem_cons_of_mem _ mem)
    exact ⟨item' :: items', .cons first later, rfl⟩

/-- The checker finds the type of an expression that has one. -/
theorem infer_complete {expr : Expr} {ty : Ty} (h : HasType expr ty) :
    ∃ typed, expr.infer.result = .ok typed ∧ typed.note = ty := by
  induction expr using Tree.induct generalizing ty with
  | literal note token =>
    cases h with
    | literal leaf =>
      exact ⟨_, Expr.infer_literal_ok.2 ⟨ty, literalType_ok.2 leaf, rfl⟩, rfl⟩
  | unary note operator operand span ih =>
    cases h with
    | unary hasType numeric =>
      obtain ⟨operand', inner, rfl⟩ := ih hasType
      refine ⟨_, Expr.infer_unary_ok.2 ⟨operand', inner, _, ?_, rfl⟩, rfl⟩
      exact signedType_ok.2 ⟨rfl, numeric⟩
  | binary note left operator right span ihl ihr =>
    cases h with
    | binary leftType rightType found accepted merges gives =>
      obtain ⟨left', first, rfl⟩ := ihl leftType
      obtain ⟨right', second, rfl⟩ := ihr rightType
      have check := resultType_ok.2 ⟨_, found, accepted, _, merges, gives⟩
      exact ⟨_, Expr.infer_binary_ok.2 ⟨left', first, right', second, ty, check, rfl⟩, rfl⟩
  | ifThen note condition body span ihc ihb =>
    cases h with
    | ifThen conditionType bodyType =>
      obtain ⟨condition', first, isBool⟩ := ihc conditionType
      obtain ⟨body', second, -⟩ := ihb bodyType
      exact ⟨_, Expr.infer_ifThen_ok.2 ⟨condition', first, isBool, body', second, rfl⟩, rfl⟩
  | ifElse note condition body otherwise span ihc ihb iho =>
    cases h with
    | ifElse conditionType bodyType otherwiseType =>
      obtain ⟨condition', first, isBool⟩ := ihc conditionType
      obtain ⟨body', second, same⟩ := ihb bodyType
      obtain ⟨otherwise', third, same'⟩ := iho otherwiseType
      exact ⟨_, Expr.infer_ifElse_ok.2
        ⟨condition', first, isBool, body', second, otherwise', third, ty, ⟨same, same'⟩, rfl⟩, rfl⟩
  | block note items span ih =>
    cases h with
    | block elements =>
      obtain ⟨items', inner, rfl⟩ :=
        inferAll_complete (fun item mem ty => @ih item mem ty) elements
      exact ⟨_, Expr.infer_block_ok.2 ⟨items', inner, rfl⟩, lastType_eq items'⟩

/-- An expression has at most one type. -/
theorem HasType.unique {expr : Expr} {ty ty' : Ty} (h : HasType expr ty) (h' : HasType expr ty') :
    ty = ty' := by
  obtain ⟨typed, found, rfl⟩ := infer_complete h
  obtain ⟨typed', found', rfl⟩ := infer_complete h'
  rw [found] at found'
  cases found'
  rfl

/-- **The checker decides the typing rules.** It succeeds with the type of an expression exactly if
the expression has that type, and its tree is then the expression with the types of all its
nodes. -/
theorem typeCheck_iff_hasType (expr : Expr) :
    (∀ ty, (∃ typed, expr.typeCheck.result = .ok typed ∧ typed.note = ty) ↔ HasType expr ty) ∧
      ∀ typed, expr.typeCheck.result = .ok typed →
        typed.erase = expr ∧ List.Forall₂ TypedAs expr.nodes typed.nodes := by
  simp only [Expr.typeCheck_ok]
  refine ⟨fun ty => ⟨?_, infer_complete⟩, fun typed h => ?_⟩
  · rintro ⟨typed, found, rfl⟩
    exact (TypedAs.of_nodes (infer_sound found)).hasType
  · have nodes := infer_sound h
    exact ⟨(TypedAs.of_nodes nodes).erase, nodes⟩

end ExprCheck
