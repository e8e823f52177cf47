import ExprCheck.Proofs.Typing.Derivation

/-!
# The checks of a tree and their order

A tree is checked by single checks, one after the other:

* `Check`: one check of a node. `Check.Finds` says what it finds wrong, by the typing rules and
  without the checker. A check that needs the type of a tree finds nothing where there is none.
* `Expr.checks`: the checks of a tree in their order. Those of the parts of a node come before the
  check that needs their types, so the condition of a conditional is checked before its branches are
  looked at.
* `FirstFault`: what the first check that finds something reports.
* `Performs`: a step of the checker fails as the first fault of some checks says. Steps one after
  the other perform the checks one after the other, so `Expr.infer_performs` is an induction on the
  tree.
* `typeCheck_reports_first`: the checker reports the first fault, whatever follows it.
-/

namespace ExprCheck

/-! ### Single checks -/

/-- One check of a node of an expression. -/
inductive Check where
  /-- A leaf has a type. -/
  | leaf (token : Token)
  /-- A sign stands before a number. -/
  | sign (operator : Token) (operand : Expr)
  /-- There is a rule for an operator between two operands. -/
  | rule (operator : Token) (left right : Expr)
  /-- The rule of an operator takes operands of their types. -/
  | operands (operator : Token) (left right : Expr)
  /-- The types of the operands merge. -/
  | merge (operator : Token) (left right : Expr)
  /-- A condition is a truth value. -/
  | condition (tree : Expr)
  /-- Two branches have the same type. -/
  | branches (body otherwise : Expr)

namespace Check

/-- Where a check reports. -/
def position : Check → Position
  | leaf token => token.start
  | sign operator _ | rule operator .. | operands operator .. | merge operator .. => operator.start
  | condition tree => tree.start
  | branches _ otherwise => otherwise.start

/-- The trees that are checked before this check is made. -/
def subjects : Check → List Expr
  | leaf _ => []
  | sign _ operand => [operand]
  | rule _ left right | operands _ left right | merge _ left right => [left, right]
  | condition tree => [tree]
  | branches body otherwise => [body, otherwise]

/-- What a check finds wrong. -/
inductive Finds : Check → Fault → Prop where
  | identifier {token} :
      token.kind = .identifier → Finds (leaf token) (.unsupportedIdentifier token.value)
  | noLeaf {token} :
      token.kind ≠ .identifier → (∀ ty, ¬ LeafType token.kind ty) →
      Finds (leaf token) (.internalError ("literal node holds a " ++ token.kind.name ++ " token"))
  | noNumber {operator operand ty} :
      HasType operand ty → ¬ (ty = .int ∨ ty = .float) →
      Finds (sign operator operand) (.unaryTypeMismatch operator.value ty.name)
  | noRule {operator left right} :
      OperatorRule.ofKind? operator.kind = none →
      Finds (rule operator left right)
        (.internalError ("no typing rule for operator `" ++ operator.value ++ "`"))
  | notTaken {operator left right leftType rightType found types} :
      HasType left leftType → HasType right rightType →
      OperatorRule.ofKind? operator.kind = some found → found.accepted? = some types →
      leftType ∉ types ∨ rightType ∉ types →
      Finds (operands operator left right)
        (.operandTypeMismatch operator.value leftType.name rightType.name)
  | noMerge {operator left right leftType rightType} :
      HasType left leftType → HasType right rightType →
      (∀ merged, ¬ Ty.Merges leftType rightType merged) →
      Finds (merge operator left right)
        (.incompatibleTypes operator.value leftType.name rightType.name)
  | noTruth {tree ty} :
      HasType tree ty → ty ≠ .bool → Finds (condition tree) (.nonBooleanCondition ty.name)
  | differ {body otherwise bodyType otherwiseType} :
      HasType body bodyType → HasType otherwise otherwiseType → bodyType ≠ otherwiseType →
      Finds (branches body otherwise) (.branchTypeMismatch bodyType.name otherwiseType.name)

/-- A check reports what it finds at its place. -/
def Reports (check : Check) (diagnostic : Diagnostic) : Prop :=
  check.Finds diagnostic.fault ∧ diagnostic.position = check.position

/-- A check finds nothing wrong. -/
def Passes (check : Check) : Prop :=
  ∀ fault, ¬ check.Finds fault

end Check

/-! ### Checks in order -/

namespace Expr

mutual

/-- The checks of an expression in their order. -/
def checks : Expr → List Check
  | .literal _ token => [.leaf token]
  | .unary _ operator operand _ => checks operand ++ [.sign operator operand]
  | .binary _ left operator right _ =>
    checks left ++ (checks right ++
      [.rule operator left right, .operands operator left right, .merge operator left right])
  | .ifThen _ condition body _ => checks condition ++ .condition condition :: checks body
  | .ifElse _ condition body otherwise _ =>
    checks condition ++ .condition condition ::
      (checks body ++ (checks otherwise ++ [.branches body otherwise]))
  | .block _ items _ => checksAll items

/-- The checks of some expressions, one expression after the other. -/
def checksAll : List Expr → List Check
  | [] => []
  | item :: items => checks item ++ checksAll items

end

end Expr

/-- What the first of the checks that finds something reports. -/
def FirstFault (checks : List Check) (diagnostic : Diagnostic) : Prop :=
  ∃ before check after, checks = before ++ check :: after ∧
    (∀ earlier ∈ before, earlier.Passes) ∧ check.Reports diagnostic

namespace FirstFault

variable {check : Check} {checks later : List Check} {diagnostic : Diagnostic}

theorem cons_iff :
    FirstFault (check :: checks) diagnostic ↔
      check.Reports diagnostic ∨ check.Passes ∧ FirstFault checks diagnostic := by
  constructor
  · rintro ⟨before, found, after, eq, passes, reports⟩
    cases before with
    | nil =>
      obtain ⟨rfl, rfl⟩ := List.cons.inj eq
      exact .inl reports
    | cons first before =>
      obtain ⟨rfl, rfl⟩ := List.cons.inj eq
      obtain ⟨first, others⟩ := List.forall_mem_cons.1 passes
      exact .inr ⟨first, before, found, after, rfl, others, reports⟩
  · rintro (reports | ⟨first, before, found, after, rfl, others, reports⟩)
    · exact ⟨[], check, checks, rfl, List.forall_mem_nil _, reports⟩
    · exact ⟨check :: before, found, after, rfl, List.forall_mem_cons.2 ⟨first, others⟩, reports⟩

theorem not_nil : ¬ FirstFault [] diagnostic := by
  rintro ⟨before, found, after, eq, -⟩
  cases before <;> cases eq

/-- A check that finds something is the first to do so. -/
theorem cons_of_finds {fault : Fault} (h : check.Finds fault) :
    FirstFault (check :: checks) diagnostic ↔ check.Reports diagnostic := by
  rw [cons_iff]
  exact or_iff_left fun both => both.1 fault h

theorem cons_of_passes (h : check.Passes) :
    FirstFault (check :: checks) diagnostic ↔ FirstFault checks diagnostic := by
  rw [cons_iff, and_iff_right h]
  exact or_iff_right fun reports => h _ reports.1

theorem singleton_iff : FirstFault [check] diagnostic ↔ check.Reports diagnostic := by
  rw [cons_iff]
  exact or_iff_left fun both => not_nil both.2

theorem append_iff :
    FirstFault (checks ++ later) diagnostic ↔
      FirstFault checks diagnostic ∨
        (∀ check ∈ checks, check.Passes) ∧ FirstFault later diagnostic := by
  induction checks with
  | nil => simp [not_nil]
  | cons check checks ih =>
    rw [List.cons_append, cons_iff, cons_iff, ih, List.forall_mem_cons]
    tauto

theorem exists_mem (h : FirstFault checks diagnostic) :
    ∃ check ∈ checks, check.Reports diagnostic := by
  obtain ⟨before, check, after, rfl, -, reports⟩ := h
  exact ⟨check, List.mem_append_right _ List.mem_cons_self, reports⟩

/-- Of checks that do not all pass, one is the first to report. -/
theorem exists_iff :
    (∃ diagnostic, FirstFault checks diagnostic) ↔
      ∃ check ∈ checks, ∃ fault, check.Finds fault := by
  constructor
  · rintro ⟨diagnostic, fault⟩
    obtain ⟨check, mem, found, -⟩ := fault.exists_mem
    exact ⟨check, mem, _, found⟩
  · intro h
    induction checks with
    | nil => simp at h
    | cons check checks ih =>
      by_cases first : ∃ fault, check.Finds fault
      · obtain ⟨fault, found⟩ := first
        exact ⟨⟨fault, check.position⟩, cons_iff.2 (.inl ⟨found, rfl⟩)⟩
      · obtain ⟨later, mem, finds⟩ := h
        rcases List.mem_cons.1 mem with rfl | mem
        · exact absurd finds first
        · obtain ⟨diagnostic, fault⟩ := ih ⟨later, mem, finds⟩
          exact ⟨diagnostic, cons_iff.2 (.inr ⟨not_exists.1 first, fault⟩)⟩

theorem passes_iff :
    (∀ check ∈ checks, check.Passes) ↔ ∀ diagnostic, ¬ FirstFault checks diagnostic := by
  rw [← not_exists, exists_iff]
  simp only [Check.Passes, not_exists, not_and]

end FirstFault

/-! ### What single checks find -/

theorem literalType_of_noLeaf {token : Token} (notName : token.kind ≠ .identifier)
    (noLeaf : ∀ ty, ¬ LeafType token.kind ty) :
    token.literalType =
      .error (.internalError ("literal node holds a " ++ token.kind.name ++ " token")) := by
  obtain ⟨kind, value, span⟩ := token
  cases kind <;> first | rfl | exact absurd rfl notName | exact absurd (by constructor) (noLeaf _)

/-- The types that a rule refuses, by what it takes. -/
theorem accepts_eq_false {rule : OperatorRule} {left right : Ty} :
    (rule.accepts left && rule.accepts right) = false ↔
      ∃ types, rule.accepted? = some types ∧ (left ∉ types ∨ right ∉ types) := by
  unfold OperatorRule.accepts
  cases rule.accepted? with
  | none => simp
  | some types => simp [← imp_iff_not_or]

namespace Check

variable {operator : Token} {operand left right tree body otherwise : Expr}
  {ty leftType rightType bodyType otherwiseType : Ty} {fault : Fault}

theorem finds_leaf_iff {token : Token} :
    (leaf token).Finds fault ↔ token.literalType = .error fault := by
  constructor
  · intro h
    cases h with
    | identifier isName => rw [Token.literalType, isName]
    | noLeaf notName noLeaf => exact literalType_of_noLeaf notName noLeaf
  · intro h
    by_cases isName : token.kind = .identifier
    · rw [Token.literalType, isName] at h
      cases h
      exact .identifier isName
    · have noLeaf : ∀ ty, ¬ LeafType token.kind ty := by
        intro ty hasType
        rw [literalType_ok.2 hasType] at h
        cases h
      rw [literalType_of_noLeaf isName noLeaf] at h
      cases h
      exact .noLeaf isName noLeaf

theorem finds_sign_iff (h : HasType operand ty) :
    (sign operator operand).Finds fault ↔ operator.signedType ty = .error fault := by
  have numeric : ty.isNumeric = true ↔ ty = .int ∨ ty = .float := by cases ty <;> decide
  simp only [Token.signedType, numeric]
  constructor
  · intro found
    cases found with
    | noNumber h' noNumber =>
      obtain rfl := h.unique h'
      rw [if_neg noNumber]
  · intro refused
    split at refused
    · cases refused
    · next noNumber =>
      cases refused
      exact .noNumber h noNumber

theorem finds_condition_iff (h : HasType tree ty) :
    (condition tree).Finds fault ↔ ty.asCondition = .error fault := by
  rw [Ty.asCondition]
  constructor
  · intro found
    cases found with
    | noTruth h' noTruth =>
      obtain rfl := h.unique h'
      rw [if_neg noTruth]
  · intro refused
    split at refused
    · cases refused
    · next noTruth =>
      cases refused
      exact .noTruth h noTruth

theorem finds_branches_iff (h : HasType body bodyType) (h' : HasType otherwise otherwiseType) :
    (branches body otherwise).Finds fault ↔ bodyType.ofBranches otherwiseType = .error fault := by
  rw [Ty.ofBranches]
  constructor
  · intro found
    cases found with
    | differ first second differ =>
      obtain rfl := h.unique first
      obtain rfl := h'.unique second
      rw [if_neg differ]
  · intro refused
    split at refused
    · cases refused
    · next differ =>
      cases refused
      exact .differ h h' differ

/-! #### Operators -/

theorem finds_rule_iff :
    (rule operator left right).Finds fault ↔ OperatorRule.ofKind? operator.kind = none ∧
      .internalError ("no typing rule for operator `" ++ operator.value ++ "`") = fault := by
  constructor
  · intro found
    cases found with
    | noRule notFound => exact ⟨notFound, rfl⟩
  · rintro ⟨notFound, rfl⟩
    exact .noRule notFound

theorem finds_operands_iff (h : HasType left leftType) (h' : HasType right rightType) :
    (operands operator left right).Finds fault ↔
      ∃ found, OperatorRule.ofKind? operator.kind = some found ∧
        (found.accepts leftType && found.accepts rightType) = false ∧
        .operandTypeMismatch operator.value leftType.name rightType.name = fault := by
  simp only [accepts_eq_false]
  constructor
  · intro found
    cases found with
    | notTaken first second isRule taken notTaken =>
      obtain rfl := h.unique first
      obtain rfl := h'.unique second
      exact ⟨_, isRule, ⟨_, taken, notTaken⟩, rfl⟩
  · rintro ⟨found, isRule, ⟨types, taken, notTaken⟩, rfl⟩
    exact .notTaken h h' isRule taken notTaken

theorem finds_merge_iff (h : HasType left leftType) (h' : HasType right rightType) :
    (merge operator left right).Finds fault ↔
      leftType.merge? rightType = none ∧
        .incompatibleTypes operator.value leftType.name rightType.name = fault := by
  have noMerge : leftType.merge? rightType = none ↔
      ∀ merged, ¬ Ty.Merges leftType rightType merged := by
    simp only [← merge?_eq_some, Option.eq_none_iff_forall_ne_some, ne_eq]
  rw [noMerge]
  constructor
  · intro found
    cases found with
    | noMerge first second noMerge =>
      obtain rfl := h.unique first
      obtain rfl := h'.unique second
      exact ⟨noMerge, rfl⟩
  · rintro ⟨noMerge, rfl⟩
    exact .noMerge h h' noMerge

/-- What is wrong with an operator is what the first of its three checks finds. -/
theorem firstFault_operator (h : HasType left leftType) (h' : HasType right rightType)
    {diagnostic : Diagnostic} :
    FirstFault
        [rule operator left right, operands operator left right, merge operator left right]
        diagnostic ↔
      operator.resultType leftType rightType = .error diagnostic.fault ∧
        diagnostic.position = operator.start := by
  cases found : OperatorRule.ofKind? operator.kind with
  | none =>
    rw [FirstFault.cons_of_finds (.noRule found)]
    simp only [Reports, finds_rule_iff, position, Token.resultType, found, true_and,
      Except.error.injEq]
  | some found' =>
    have isRule : (rule operator left right).Passes := by
      intro fault finds
      rw [finds_rule_iff, found] at finds
      cases finds.1
    rw [FirstFault.cons_of_passes isRule]
    cases taken : found'.accepts leftType && found'.accepts rightType with
    | false =>
      have refuses := (finds_operands_iff h h').2 ⟨found', found, taken, rfl⟩
      rw [FirstFault.cons_of_finds refuses]
      simp only [Reports, finds_operands_iff h h', position, Token.resultType, found, taken,
        Option.some.injEq, exists_eq_left', true_and, Bool.false_eq_true, if_false,
        Except.error.injEq]
    | true =>
      have takes : (operands operator left right).Passes := by
        intro fault finds
        obtain ⟨found'', same, refuses, -⟩ := (finds_operands_iff h h').1 finds
        rw [found, Option.some.injEq] at same
        rw [← same, taken] at refuses
        cases refuses
      rw [FirstFault.cons_of_passes takes, FirstFault.singleton_iff]
      simp only [Reports, finds_merge_iff h h', position, Token.resultType, found, taken, if_true]
      cases leftType.merge? rightType with
      | none => simp only [true_and, Except.error.injEq]
      | some merged => simp only [reduceCtorEq, false_and]

end Check

/-! ### The checker performs the checks -/

/-- A step of the checker that fails as the first fault of some checks says. -/
def Performs {α : Type} (step : Logged α) (checks : List Check) : Prop :=
  ∀ diagnostic, step.result = .error diagnostic ↔ FirstFault checks diagnostic

namespace Performs

open Logged

variable {α β : Type} {step : Logged α} {next : α → Logged β} {checks later : List Check}

/-- A step succeeds if all its checks pass. -/
theorem passes_iff (h : Performs step checks) :
    (∀ check ∈ checks, check.Passes) ↔ ∃ value, step.result = .ok value := by
  rw [FirstFault.passes_iff]
  constructor
  · intro passes
    cases result : step.result with
    | ok value => exact ⟨value, rfl⟩
    | error diagnostic => exact absurd ((h diagnostic).1 result) (passes diagnostic)
  · rintro ⟨value, ok⟩ diagnostic fault
    rw [← h diagnostic, ok] at fault
    cases fault

theorem pure (value : α) : Performs (Pure.pure value : Logged α) [] := fun _ =>
  iff_of_false result_pure_error.1 FirstFault.not_nil

theorem write (entry : LogEntry) : Performs (Logged.write entry) [] := fun _ =>
  iff_of_false result_write_error.1 FirstFault.not_nil

/-- Steps one after the other perform their checks one after the other. -/
theorem bind (h : Performs step checks)
    (h' : ∀ value, step.result = .ok value → Performs (next value) later) :
    Performs (step >>= next) (checks ++ later) := by
  intro diagnostic
  rw [result_bind_error, FirstFault.append_iff, h diagnostic, h.passes_iff]
  refine or_congr_right ⟨?_, ?_⟩
  · rintro ⟨value, ok, error⟩
    exact ⟨⟨value, ok⟩, (h' value ok diagnostic).1 error⟩
  · rintro ⟨⟨value, ok⟩, fault⟩
    exact ⟨value, ok, (h' value ok diagnostic).2 fault⟩

/-- A step that checks nothing after those of another. -/
theorem bind_of_nil (h : Performs step checks)
    (h' : ∀ value, step.result = .ok value → Performs (next value) []) :
    Performs (step >>= next) checks := by
  rw [← List.append_nil checks]
  exact h.bind h'

/-- A check at its place. -/
theorem located {result : Except Fault α} {check : Check}
    (h : ∀ fault, check.Finds fault ↔ result = .error fault) :
    Performs (Logged.located check.position result) [check] := by
  intro diagnostic
  rw [result_located_error, FirstFault.singleton_iff, Check.Reports, h]

end Performs

namespace Expr

open Logged

/-- A tree with types stands where the tree without them does. -/
theorem start_of_infer {expr : Expr} {typed : TypedExpr} (h : (infer expr).result = .ok typed) :
    typed.start = expr.start := by
  have erased := (TypedAs.of_nodes (infer_sound h)).erase
  rw [← erased]
  exact congrArg Span.start (Tree.span_map _ typed).symm

theorem hasType_of_infer {expr : Expr} {typed : TypedExpr} (h : (infer expr).result = .ok typed) :
    HasType expr typed.note :=
  (TypedAs.of_nodes (infer_sound h)).hasType

theorem condition_performs {condition : Expr} {typed : TypedExpr}
    (h : (infer condition).result = .ok typed) :
    Performs (located typed.start typed.note.asCondition) [.condition condition] := by
  rw [start_of_infer h]
  exact .located fun _ => Check.finds_condition_iff (hasType_of_infer h)

theorem branches_performs {body otherwise : Expr} {typed typed' : TypedExpr}
    (h : (infer body).result = .ok typed) (h' : (infer otherwise).result = .ok typed') :
    Performs (located typed'.start (typed.note.ofBranches typed'.note))
      [.branches body otherwise] := by
  rw [start_of_infer h']
  exact .located fun _ => Check.finds_branches_iff (hasType_of_infer h) (hasType_of_infer h')

theorem operator_performs (operator : Token) {left right : Expr} {typed typed' : TypedExpr}
    (h : (infer left).result = .ok typed) (h' : (infer right).result = .ok typed') :
    Performs (located operator.start (operator.resultType typed.note typed'.note))
      [.rule operator left right, .operands operator left right, .merge operator left right] := by
  intro diagnostic
  rw [result_located_error, Check.firstFault_operator (hasType_of_infer h) (hasType_of_infer h')]

theorem inferAll_performs {items : List Expr}
    (h : ∀ item ∈ items, Performs (infer item) item.checks) :
    Performs (inferAll items) (checksAll items) := by
  induction items with
  | nil => exact .pure _
  | cons item items ih =>
    obtain ⟨first, others⟩ := List.forall_mem_cons.1 h
    exact first.bind fun _ _ => (ih others).bind_of_nil fun _ _ => .pure _

/-- The checker performs the checks of a tree in their order. -/
theorem infer_performs (expr : Expr) : Performs (infer expr) expr.checks := by
  induction expr using Tree.induct with
  | literal note token =>
    exact (Performs.located fun _ => Check.finds_leaf_iff).bind_of_nil fun _ _ => .pure _
  | unary note operator operand span ih =>
    refine ih.bind fun operand' found => ?_
    have hasType := hasType_of_infer found
    exact (Performs.located fun _ => Check.finds_sign_iff hasType).bind_of_nil fun _ _ => .pure _
  | binary note left operator right span ihl ihr =>
    refine ihl.bind fun left' found => ihr.bind fun right' found' => ?_
    refine (operator_performs operator found found').bind_of_nil fun _ _ => ?_
    exact (Performs.write _).bind_of_nil fun _ _ => .pure _
  | ifThen note condition body span ihc ihb =>
    refine ihc.bind fun condition' found => ?_
    exact (condition_performs found).bind fun _ _ => ihb.bind_of_nil fun _ _ => .pure _
  | ifElse note condition body otherwise span ihc ihb iho =>
    refine ihc.bind fun condition' found => ?_
    refine (condition_performs found).bind fun _ _ => ihb.bind fun body' found' => ?_
    refine iho.bind fun otherwise' found'' => ?_
    exact (branches_performs found' found'').bind_of_nil fun _ _ => .pure _
  | block note items span ih => exact (inferAll_performs ih).bind_of_nil fun _ _ => .pure _

theorem typeCheck_performs (expr : Expr) : Performs (typeCheck expr) expr.checks :=
  (infer_performs expr).bind_of_nil fun _ _ => (Performs.write _).bind_of_nil fun _ _ => .pure _

/-! ### The first fault -/

/-- **The checker reports the first fault.** It fails exactly if some check finds something. Its
report is then that of the first such check in their order, and so it is on every other expression
that has the same checks up to this one. -/
theorem typeCheck_reports_first (expr : Expr) :
    ((∃ diagnostic, expr.typeCheck.result = .error diagnostic) ↔
        ∃ check ∈ expr.checks, ∃ fault, check.Finds fault) ∧
      (∀ diagnostic, expr.typeCheck.result = .error diagnostic ↔
        FirstFault expr.checks diagnostic) ∧
      ∀ before check after diagnostic, expr.checks = before ++ check :: after →
        (∀ earlier ∈ before, earlier.Passes) → check.Reports diagnostic →
        ∀ (other : Expr) after', other.checks = before ++ check :: after' →
          other.typeCheck.result = .error diagnostic := by
  refine ⟨?_, typeCheck_performs expr, ?_⟩
  · simp only [typeCheck_performs expr _, FirstFault.exists_iff]
  · intro before check after diagnostic _ passes reports other after' eq
    exact (typeCheck_performs other diagnostic).2 ⟨before, check, after', eq, passes, reports⟩

/-- A condition that is a number is reported, and not the name in the branch that follows it. -/
example :
    let place : UInt32 → Span := fun offset => Span.empty ⟨offset, "shell"⟩
    (Expr.typeCheck (.ifThen () (.literal () ⟨.integer, "1", place 3⟩)
      (.block () [.literal () ⟨.identifier, "x", place 7⟩] (place 5)) (place 0))).result =
        .error ⟨.nonBooleanCondition "Int", ⟨3, "shell"⟩⟩ := by
  rfl

end Expr

end ExprCheck
