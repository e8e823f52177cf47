import ExprCheck.Proofs.Parser.Entry
import ExprCheck.Proofs.Tree.Source
import ExprCheck.Proofs.Typing.Culprit
import ExprCheck.Tree.Equality

/-!
# The form of the trees that are read

* `Expr.IsFormed`: a node of a form that the language has, whatever the nodes below it are: which
  tokens are leaves, signs and operators, and what the branches of a conditional are.
* `Reads.formed`: every phrase is made of such nodes, by one case for each way of reading.
* `Expr.BlamesAssignment`: a report of the checker that an assignment has no rule.
* `typeCheck_internal`: on such a tree this is all that the checker can report as an error of its
  own, and by `typeCheck_internal_of_parse` so it is on every tree that is read. The kinds that the
  parser takes as leaves, signs and operators are otherwise those that the checker has types for.
-/

namespace ExprCheck

open Rules (binaryOperators mem_binaryOperators_iff)

namespace Expr

/-- A node of a form that the language has. -/
def IsFormed : Expr → Prop
  | .literal _ token => token.kind.isLiteral
  | .unary _ operator _ _ => operator.kind = .plus ∨ operator.kind = .dash
  | .binary _ _ operator _ _ => operator.kind ∈ binaryOperators
  | .ifThen _ _ body _ => body.isBlock
  | .ifElse _ _ body otherwise _ => body.isBlock ∧ (otherwise.isBlock ∨ otherwise.isConditional)
  | .block .. => True

/-- All nodes of a tree are of a form that the language has. -/
def AllFormed (expr : Expr) : Prop :=
  ∀ node ∈ expr.nodes, IsFormed node

theorem allFormed_iff {expr : Expr} :
    AllFormed expr ↔ IsFormed expr ∧ ∀ part ∈ expr.inner, AllFormed part :=
  Tree.forall_mem_nodes_iff

end Expr

open ExprCheck.Expr (IsFormed AllFormed allFormed_iff)

/-! ### Trees that are read -/

/-- What the tree of a phrase is. The operators after an operand are formed if the operand is. -/
def Phrase.IsFormed (expr : Expr) : Phrase → Prop
  | .expression _ | .operand => AllFormed expr
  | .operators _ left => AllFormed left → AllFormed expr
  | .block => expr.isBlock ∧ AllFormed expr
  | .branch => expr.isConditional ∧ AllFormed expr

variable {tokens rest : List Token}

theorem Row.forall_mem {items : List Expr} {holds : Expr → Prop}
    (h : Row (fun _ item _ => holds item) tokens items rest) : ∀ item ∈ items, holds item := by
  induction h with
  | nil => exact List.forall_mem_nil _
  | cons first _ ih => exact List.forall_mem_cons.2 ⟨first, ih⟩

theorem Reads.formed {phrase : Phrase} {expr : Expr} (h : Reads phrase tokens expr rest) :
    phrase.IsFormed expr := by
  induction h using Reads.induct with
  | expression _ _ first later => exact later first
  | literal isLiteral => exact allFormed_iff.2 ⟨isLiteral, List.forall_mem_nil _⟩
  | sign isSign _ ih => exact allFormed_iff.2 ⟨isSign, List.forall_mem_singleton.2 ih⟩
  | group _ _ _ ih => exact ih
  | blockOperand _ ih => exact ih.2
  | branchOperand _ _ ih => exact ih.2
  | stop _ => exact id
  | operator found _ _ _ right later =>
    intro left
    have isOperator := (mem_binaryOperators_iff _).2 (Option.isSome_of_eq_some found)
    exact later (allFormed_iff.2
      ⟨isOperator, List.forall_mem_cons.2 ⟨left, List.forall_mem_singleton.2 right⟩⟩)
  | block _ _ _ items =>
    have inside := (items.mono fun _ _ _ read => read.elim fun _ formed => formed).forall_mem
    exact ⟨rfl, allFormed_iff.2 ⟨trivial, inside⟩⟩
  | ifThen _ _ _ _ condition body =>
    refine ⟨rfl, allFormed_iff.2 ⟨body.1, ?_⟩⟩
    exact List.forall_mem_cons.2 ⟨condition, List.forall_mem_singleton.2 body.2⟩
  | ifElse _ _ _ _ condition body otherwise =>
    refine ⟨rfl, allFormed_iff.2 ⟨⟨body.1, .inl otherwise.1⟩, ?_⟩⟩
    exact List.forall_mem_cons.2
      ⟨condition, List.forall_mem_cons.2 ⟨body.2, List.forall_mem_singleton.2 otherwise.2⟩⟩
  | ifElsif _ _ _ _ condition body otherwise =>
    refine ⟨rfl, allFormed_iff.2 ⟨⟨body.1, .inr otherwise.1⟩, ?_⟩⟩
    exact List.forall_mem_cons.2
      ⟨condition, List.forall_mem_cons.2 ⟨body.2, List.forall_mem_singleton.2 otherwise.2⟩⟩

section Source

variable {σ : Type} [TokenSource σ] {source : σ} {expr : Expr}

theorem parse_formed (ok : (parse source).result = .ok expr) : AllFormed expr := by
  obtain ⟨items, last, -, row, rfl⟩ := parse_sound ok
  exact allFormed_iff.2 ⟨trivial, (row.mono fun _ _ _ reads => reads.formed).forall_mem⟩

theorem parseExpression_formed (ok : (parseExpression source).result = .ok expr) :
    AllFormed expr := by
  obtain ⟨_, _, reads⟩ := parseExpression_sound ok
  exact reads.formed

end Source

/-! ### What the checker calls an error of its own -/

/-- A leaf of the language that is no name has a type. -/
theorem leafType_of_isLiteral {kind : TokenKind} (h : kind.isLiteral)
    (notName : kind ≠ .identifier) : ∃ ty, LeafType kind ty := by
  cases kind <;> first | exact ⟨_, by constructor⟩ | exact absurd rfl notName | cases h

/-- The only operator of the language that has no rule is assignment. -/
theorem isAssignment_of_noRule {kind : TokenKind} (h : kind ∈ binaryOperators)
    (noRule : OperatorRule.ofKind? kind = none) : kind = .assignment := by
  revert h noRule
  cases kind <;> decide

/-- A report of the checker that an assignment in a tree has no rule. Both operands of the
assignment have passed, and the report stands at the assignment itself. -/
def Expr.BlamesAssignment (expr : Expr) (diagnostic : Diagnostic) : Prop :=
  ∃ (left : Expr) (operator : Token) (right : Expr) (span : Span),
    .binary () left operator right span ∈ expr.nodes ∧ operator.kind = .assignment ∧
      diagnostic.fault =
        .internalError ("no typing rule for operator `" ++ operator.value ++ "`") ∧
      diagnostic.position = operator.start ∧
      (∃ typed, left.typeCheck.result = .ok typed) ∧
      ∃ typed, right.typeCheck.result = .ok typed

theorem typeCheck_internal {expr : Expr} (formed : AllFormed expr) {diagnostic : Diagnostic}
    (error : expr.typeCheck.result = .error diagnostic) (internal : diagnostic.isInternal) :
    expr.BlamesAssignment diagnostic := by
  obtain ⟨node, mem, check, own, ⟨finds, place⟩, passes⟩ := Expr.hasFault_of_typeCheck error
  have isFormed := formed node mem
  obtain ⟨fault, position⟩ := diagnostic
  cases finds with
  | noLeaf notName noLeaf =>
    obtain rfl := Expr.eq_literal_of_mem_ownChecks own
    obtain ⟨ty, hasType⟩ := leafType_of_isLiteral isFormed notName
    exact absurd hasType (noLeaf ty)
  | @noRule operator left right noRule =>
    obtain ⟨span, rfl⟩ := Expr.eq_binary_of_mem_ownChecks own
    have first := passes left List.mem_cons_self
    have second := passes right (List.mem_cons_of_mem _ List.mem_cons_self)
    exact ⟨left, operator, right, span, mem, isAssignment_of_noRule isFormed noRule, rfl, place,
      (Expr.typeCheck_performs left).passes_iff.1 first,
      (Expr.typeCheck_performs right).passes_iff.1 second⟩
  | _ => cases internal

/-- **The checker's own errors are about assignment only.** All nodes of a tree that is read are of
a form that the language has. If the checker reports an error of its own on such a tree, it is that
an assignment in the tree has no rule. -/
theorem typeCheck_internal_of_parse {σ : Type} [TokenSource σ] {source : σ} {expr : Expr}
    (read : (parse source).result = .ok expr ∨ (parseExpression source).result = .ok expr) :
    (∀ node ∈ expr.nodes, IsFormed node) ∧
      ∀ diagnostic, expr.typeCheck.result = .error diagnostic → diagnostic.isInternal →
        expr.BlamesAssignment diagnostic := by
  have formed : AllFormed expr := read.elim parse_formed parseExpression_formed
  exact ⟨formed, fun _ error internal => typeCheck_internal formed error internal⟩

/-- An assignment in a condition. The branch with a name in it is not looked at. -/
theorem typeCheck_internal_of_parse_condition :
    let source := Scanner.ofSource "-1 if true == (2 = 3) \x7b x \x7d elsif 'a' \x7b\x7d" "shell"
    ∃ expr diagnostic, (parse source).result = .ok expr ∧
      expr.typeCheck.result = .error diagnostic ∧ diagnostic.isInternal ∧
      diagnostic.position = ⟨17, "shell"⟩ ∧
      (∀ node ∈ expr.nodes, IsFormed node) ∧ expr.BlamesAssignment diagnostic := by
  intro source
  have accepted : (parse source).result.isOk = true := by decide +kernel
  have refused : ((parse source).result >>= fun expr => expr.typeCheck.result) =
      .error ⟨.internalError "no typing rule for operator `=`", ⟨17, "shell"⟩⟩ := by
    decide +kernel
  obtain ⟨expr, ok⟩ := exists_ok_of_isOk accepted
  rw [ok] at refused
  obtain ⟨formed, blames⟩ := typeCheck_internal_of_parse (.inl ok)
  exact ⟨expr, _, ok, refused, rfl, rfl, formed, blames _ refused rfl⟩

end ExprCheck
