import ExprCheck.Proofs.Parser.Composition

/-!
# The depth of a parser

Only a prefix rule, an operator and a branch take a parser deeper, and only `expression` takes it
back. So the depth is what it should be for any tokens and any rules, wherever the reading fails:

* `ParserM.KeepsDepth step`: behind the step it is what it was before. This holds of every
  expression and of every rule for operands but that for conditionals.
* `ParserM.Enters nested parser count`: a conditional goes on with so many further conditions. Each
  of them takes the parser one level deeper, and nothing within the rule takes it back.
* `Operation`: what can be done with a parser from outside, and `Operation.throughout`: at no moment
  of it is the parser below the deepest level.
* `Parser.CountsLevels`: what the depth of a parser says, and what it will say after one operation
  more.
-/

namespace ExprCheck

variable {σ α β : Type}

/-- The conditions that a conditional may test, one after the other. -/
def Expr.conditions : Expr → Nat
  | .ifThen .. => 1
  | .ifElse _ _ _ otherwise _ => conditions otherwise + 1
  | _ => 0

namespace ParserM

/-! ### Steps that keep the depth -/

/-- Behind the step, whether it succeeds or fails, the depth is what it was before. -/
def KeepsDepth (step : ParserM σ α) : Prop :=
  ∀ parser, (left step parser).depth = parser.depth

namespace KeepsDepth

theorem of_ok {step : ParserM σ α} (h : KeepsDepth step) {parser after : Parser σ} {value : α}
    (ran : step parser = .ok value after) : after.depth = parser.depth :=
  left_of_ok ran ▸ h parser

theorem of_error {step : ParserM σ α} (h : KeepsDepth step) {parser after : Parser σ}
    {diagnostic : Diagnostic} (ran : step parser = .error diagnostic after) :
    after.depth = parser.depth :=
  left_of_error ran ▸ h parser

theorem bind {step : ParserM σ β} {next : β → ParserM σ α} (h : KeepsDepth step)
    (h' : ∀ value, KeepsDepth (next value)) : KeepsDepth (step >>= next) := by
  intro parser
  have middle := h parser
  rw [left_bind]
  cases first : step parser with
  | ok value after => exact (h' value after).trans (left_of_ok first ▸ middle)
  | error diagnostic after => exact left_of_error first ▸ middle

theorem restoringDepth (step : ParserM σ α) : KeepsDepth (restoringDepth step) := by
  intro parser
  rw [left_restoringDepth]

theorem changeRules (change : Rules → Rules) : KeepsDepth (σ := σ) (changeRules change) :=
  fun _ => rfl

variable [TokenSource σ]

theorem expect (kind : TokenKind) : KeepsDepth (σ := σ) (expect kind) := by
  intro parser
  unfold left ParserM.expect
  by_cases found : parser.current.kind = kind
  · rw [if_pos found]
    rfl
  · rw [if_neg found]

/-- Of the rules for operands, all but that for conditionals keep the depth. -/
theorem composes : Composes fun _ (step : ParserM σ _) => KeepsDepth step where
  pure _ _ := rfl
  throw _ _ := rfl
  bind := bind
  withRemaining h parser := h _ parser
  current _ := rfl
  rules _ := rfl
  advance _ := rfl
  expect := expect

/-- Whatever an expression holds and wherever it fails, the depth is restored behind it. -/
theorem expression (power : BindingPower) : KeepsDepth (σ := σ) (expression power) :=
  restoringDepth _

end KeepsDepth

variable [TokenSource σ]

/-- From the deepest level there is no way down, and nothing else changes. -/
theorem descend_of_error {parser last : Parser σ} {diagnostic : Diagnostic}
    (ran : descend parser = .error diagnostic last) : last = parser := by
  unfold descend at ran
  split at ran
  · cases ran
    rfl
  · cases ran

/-! ### Conditionals -/

/-- A branch with a condition: its word, the condition and the body. -/
def clause (nested : BindingPower → ParserM σ Expr) : ParserM σ (Token × Expr × Expr) := do
  let word ← advance
  let condition ← nested .lowest
  let body ← block nested
  return (word, condition, body)

/-- A conditional that is read from here goes on with `count` branches that have conditions of their
own. Whether the last of them can be read to its end does not matter. -/
inductive Enters (nested : BindingPower → ParserM σ Expr) : Parser σ → Nat → Prop where
  | none {parser : Parser σ} :
      (∀ parts after, clause nested parser = .ok parts after → after.current.kind = .elsifWord →
        maxNestingDepth ≤ after.depth) →
      Enters nested parser 0
  | elsif {parser after : Parser σ} {parts : Token × Expr × Expr} {count : Nat} :
      clause nested parser = .ok parts after → after.current.kind = .elsifWord →
      after.depth < maxNestingDepth → Enters nested { after with depth := after.depth + 1 } count →
      Enters nested parser (count + 1)

variable {nested : BindingPower → ParserM σ Expr}

/-- The tokens decide how many branches a conditional goes on with. -/
theorem Enters.unique {parser : Parser σ} {count count' : Nat} (h : Enters nested parser count)
    (h' : Enters nested parser count') : count = count' := by
  induction h generalizing count' with
  | none stops =>
    cases h' with
    | none _ => rfl
    | elsif ran isElsif below _ => exact absurd (stops _ _ ran isElsif) (Nat.not_le.2 below)
  | elsif ran isElsif below _ ih =>
    cases h' with
    | none stops => exact absurd (stops _ _ ran isElsif) (Nat.not_le.2 below)
    | elsif ran' _ _ later' =>
      rw [ran] at ran'
      cases ran'
      exact congrArg (· + 1) (ih later')

/-- The end of a conditional behind a clause of it. -/
def branchEnd (nested : BindingPower → ParserM σ Expr) (rounds : Nat)
    (parts : Token × Expr × Expr) : ParserM σ Expr := do
  let token ← current
  if token.kind = .elsifWord then
    descend
    let otherwise ← branchWithin nested rounds
    return .ifElse () parts.2.1 parts.2.2 otherwise ⟨parts.1.span.start, otherwise.span.stop⟩
  else if token.kind = .elseWord then
    let _ ← advance
    let otherwise ← block nested
    return .ifElse () parts.2.1 parts.2.2 otherwise ⟨parts.1.span.start, otherwise.span.stop⟩
  else return .ifThen () parts.2.1 parts.2.2 ⟨parts.1.span.start, parts.2.2.span.stop⟩

theorem branchWithin_succ (rounds : Nat) :
    branchWithin nested (rounds + 1) = clause nested >>= branchEnd nested rounds := by
  simp only [branchWithin, clause, branchEnd, bind_assoc, pure_bind]
  refine bind_congr fun word => bind_congr fun condition => bind_congr fun body =>
    bind_congr fun token => ?_
  split
  · next isElsif => rw [if_pos isElsif]
  · next isElse => rw [if_neg (by rw [isElse]; decide), if_pos isElse]
  · next notElsif notElse => rw [if_neg notElsif, if_neg notElse]

theorem conditions_of_block {parser after : Parser σ} {tree : Expr}
    (ran : block nested parser = .ok tree after) : tree.conditions = 0 := by
  obtain ⟨opening, _, -, ran⟩ := of_bind_ok ran
  obtain ⟨items, _, -, ran⟩ := of_bind_ok ran
  obtain ⟨closing, _, -, ran⟩ := of_bind_ok ran
  cases ran
  rfl

/-- What a conditional with `count` more conditions does to the depth, and to the tree if it can be
read. -/
def Deepens (step : ParserM σ Expr) (parser : Parser σ) (count : Nat) : Prop :=
  (left step parser).depth = parser.depth + count ∧
    ∀ tree after, step parser = .ok tree after → tree.conditions = count + 1

omit [TokenSource σ] in
/-- A step that keeps the depth reads no more conditions. -/
theorem Deepens.of_keepsDepth {step : ParserM σ Expr} {parser : Parser σ} (step' : ParserM σ Expr)
    (same : step parser = step' parser) (keeps : KeepsDepth step')
    (last : ∀ tree after, step' parser = .ok tree after → tree.conditions = 1) :
    Deepens step parser 0 := by
  refine ⟨?_, fun tree after ran => last tree after (same.symm.trans ran)⟩
  rw [left, same]
  exact keeps parser

/-- A conditional that goes on with no further condition ends on its level. -/
theorem branchEnd_stops (inner : ∀ power, KeepsDepth (nested power)) (rounds : Nat)
    (parts : Token × Expr × Expr) {parser : Parser σ}
    (stops : parser.current.kind = .elsifWord → maxNestingDepth ≤ parser.depth) :
    Deepens (branchEnd nested rounds parts) parser 0 := by
  have composes := KeepsDepth.composes (σ := σ)
  by_cases isElsif : parser.current.kind = .elsifWord
  · refine .of_keepsDepth (MonadExcept.throw parser.current.tooDeep) ?_ (composes.throw _) ?_
    · rw [branchEnd, bind_current, if_pos isElsif]
      exact bind_of_error (if_pos (stops isElsif))
    · intro tree after ran
      cases ran
  by_cases isElse : parser.current.kind = .elseWord
  · refine .of_keepsDepth (do
      let _ ← advance
      let otherwise ← block nested
      return .ifElse () parts.2.1 parts.2.2 otherwise
        ⟨parts.1.span.start, otherwise.span.stop⟩) ?_
      (.bind composes.advance fun _ => .bind (composes.block inner) fun _ => composes.pure _) ?_
    · rw [branchEnd, bind_current, if_neg isElsif, if_pos isElse]
    · intro tree after ran
      obtain ⟨word, _, -, ran⟩ := of_bind_ok ran
      obtain ⟨otherwise, _, isBlock, ran⟩ := of_bind_ok ran
      cases ran
      exact congrArg (· + 1) (conditions_of_block isBlock)
  · refine .of_keepsDepth (Pure.pure (.ifThen () parts.2.1 parts.2.2
      ⟨parts.1.span.start, parts.2.2.span.stop⟩)) ?_ (composes.pure _) ?_
    · rw [branchEnd, bind_current, if_neg isElsif, if_neg isElse]
    · intro tree after ran
      cases ran
      rfl

/-- A conditional that goes on with another condition does so one level deeper. -/
theorem branchEnd_elsif {rounds : Nat} (parts : Token × Expr × Expr) {parser : Parser σ}
    {count : Nat} (isElsif : parser.current.kind = .elsifWord)
    (below : parser.depth < maxNestingDepth)
    (later : Deepens (branchWithin nested rounds) { parser with depth := parser.depth + 1 } count) :
    Deepens (branchEnd nested rounds parts) parser (count + 1) := by
  obtain ⟨depth, conditions⟩ := later
  have goesOn : branchEnd nested rounds parts parser = (branchWithin nested rounds >>=
      fun otherwise => Pure.pure (.ifElse () parts.2.1 parts.2.2 otherwise
        ⟨parts.1.span.start, otherwise.span.stop⟩))
      { parser with depth := parser.depth + 1 } := by
    rw [branchEnd, bind_current, if_pos isElsif]
    exact bind_of_ok (if_neg (Nat.not_le.2 below))
  constructor
  · refine Eq.trans ?_ (depth.trans (Nat.add_right_comm _ _ _))
    rw [left, goesOn]
    exact congrArg Parser.depth (left_finish _ _ _)
  · intro tree after ran
    obtain ⟨otherwise, _, first, second⟩ := of_bind_ok (goesOn.symm.trans ran)
    cases second
    exact congrArg (· + 1) (conditions otherwise _ first)

/-- A conditional takes the parser one level deeper for each condition that it goes on with. -/
theorem branchWithin_enters (inner : ∀ power, KeepsDepth (nested power)) (rounds : Nat)
    (parser : Parser σ) (bounded : parser.depth ≤ maxNestingDepth)
    (enough : maxNestingDepth < rounds + parser.depth) :
    ∃ count, Enters nested parser count ∧ Deepens (branchWithin nested rounds) parser count := by
  have composes := KeepsDepth.composes (σ := σ)
  induction rounds generalizing parser with
  | zero => omega
  | succ rounds ih =>
    have keeps : KeepsDepth (clause nested) :=
      .bind composes.advance fun _ => .bind (inner _) fun _ =>
        .bind (composes.block inner) fun _ => composes.pure _
    rw [branchWithin_succ]
    cases ran : clause nested parser with
    | error diagnostic after =>
      refine ⟨0, .none fun parts after ran' => ?_, ?_, ?_⟩
      · rw [ran] at ran'
        cases ran'
      · rw [left_bind, ran]
        exact keeps.of_error ran
      · intro tree last ran'
        rw [bind_of_error ran] at ran'
        cases ran'
    | ok parts after =>
      have level : after.depth = parser.depth := keeps.of_ok ran
      have behind : ∀ count, Deepens (branchEnd nested rounds parts) after count →
          Deepens (clause nested >>= branchEnd nested rounds) parser count := by
        rintro count ⟨depth, conditions⟩
        refine ⟨?_, ?_⟩
        · rw [left_bind, ran]
          exact depth.trans (level ▸ rfl)
        · intro tree last ran'
          exact conditions tree last ((bind_of_ok ran).symm.trans ran')
      -- A condition that follows takes a level for its round, so the rounds last to the deepest.
      by_cases goesOn : after.current.kind = .elsifWord ∧ after.depth < maxNestingDepth
      · obtain ⟨count, enters, deepens⟩ := ih { after with depth := after.depth + 1 } goesOn.2
          (by simp only; omega)
        exact ⟨count + 1, .elsif ran goesOn.1 goesOn.2 enters,
          behind _ (branchEnd_elsif parts goesOn.1 goesOn.2 deepens)⟩
      · have stops : after.current.kind = .elsifWord → maxNestingDepth ≤ after.depth :=
          fun isElsif => Nat.not_lt.1 fun below => goesOn ⟨isElsif, below⟩
        refine ⟨0, .none fun parts' after' ran' => ?_,
          behind 0 (branchEnd_stops inner rounds parts stops)⟩
        rw [ran] at ran'
        cases ran'
        exact stops

/-! ### Any use of a parser -/

/-- A step for what it does to the parser. -/
def effect (step : ParserM σ α) : ParserM σ Unit := do
  let _ ← step
  return ()

omit [TokenSource σ] in
theorem KeepsDepth.effect {step : ParserM σ α} (h : KeepsDepth step) : KeepsDepth (effect step) :=
  h.bind fun _ _ => rfl

theorem Throughout.effect {good : Parser σ → Prop} {step : ParserM σ α}
    (h : Throughout good step) : Throughout good (effect step) :=
  h.bind fun _ => .basic (.pure ()) fun _ isGood => isGood

end ParserM

/-- What can be done with a parser from outside: its basic steps, changes of its rules, and the
rules themselves, which need not be called where the parser would call them. -/
inductive Operation where
  | advance
  | expect (kind : TokenKind)
  | descend
  | setPrefix (kind : TokenKind) (rule : PrefixRule)
  | setInfix (kind : TokenKind) (rule : InfixRule)
  | addStandardRules
  | expression (power : BindingPower)
  | operand (rule : PrefixRule)
  | application (rule : InfixRule) (left : Expr)

open ParserM

variable [TokenSource σ]

namespace Operation

/-- The step of the parser that an operation is. -/
def step : Operation → ParserM σ Unit
  | advance => effect ParserM.advance
  | expect kind => effect (ParserM.expect kind)
  | descend => ParserM.descend
  | setPrefix kind rule => changeRules (Rules.setPrefix kind rule)
  | setInfix kind rule => changeRules (Rules.setInfix kind rule)
  | addStandardRules => changeRules Rules.standard.withFallback
  | expression power => effect (ParserM.expression power)
  | operand rule => effect (ParserM.operand ParserM.expression rule)
  | application rule left => effect (ParserM.application ParserM.expression rule left)

/-- No operation takes a parser below the deepest level at any moment. -/
theorem throughout (operation : Operation) :
    Throughout (fun parser : Parser σ => parser.depth ≤ maxNestingDepth) operation.step := by
  have bounded : Invariant fun parser : Parser σ => parser.depth ≤ maxNestingDepth :=
    ⟨fun _ bounded => bounded, fun _ _ below => below, fun _ _ bounded => bounded,
      fun _ _ bounded _ => bounded⟩
  have inner := Throughout.expression bounded
  have composes := Throughout.composes bounded
  cases operation with
  | advance => exact .effect composes.advance
  | expect kind => exact .effect (composes.expect kind)
  | descend => exact .descend bounded
  | setPrefix kind rule => exact .basic (.changeRules _) fun _ bounded => bounded
  | setInfix kind rule => exact .basic (.changeRules _) fun _ bounded => bounded
  | addStandardRules => exact .basic (.changeRules _) fun _ bounded => bounded
  | expression power => exact .effect (inner power)
  | operand rule => exact .effect (.operand bounded inner rule)
  | application rule left => exact .effect (composes.application inner rule left)

/-- Only going deeper and a conditional leave the parser on another level. -/
theorem keepsDepth {operation : Operation} (other : operation ≠ descend)
    (other' : operation ≠ operand .branch) : KeepsDepth (σ := σ) operation.step := by
  have inner : ∀ power, KeepsDepth (σ := σ) (ParserM.expression power) := .expression
  have composes := KeepsDepth.composes (σ := σ)
  cases operation with
  | advance => exact .effect composes.advance
  | expect kind => exact .effect (composes.expect kind)
  | descend => exact absurd rfl other
  | setPrefix kind rule => exact .changeRules _
  | setInfix kind rule => exact .changeRules _
  | addStandardRules => exact .changeRules _
  | expression power => exact .effect (inner power)
  | operand rule =>
    exact .effect (composes.operand inner rule fun eq => absurd (congrArg operand eq) other')
  | application rule left => exact .effect (composes.application inner rule left)

end Operation

namespace Parser

/-- The parser after some operations, one after the other. An operation that fails does not keep the
next from being tried. -/
def after (parser : Parser σ) (operations : List Operation) : Parser σ :=
  operations.foldl (fun parser operation => left operation.step parser) parser

/-- The depth of a parser counts its levels, whatever is done with the parser next. -/
structure CountsLevels (parser : Parser σ) : Prop where
  bounded : parser.depth ≤ maxNestingDepth
  /-- If the way down is refused, nothing else has changed. -/
  refused : ∀ diagnostic last, descend parser = .error diagnostic last → last = parser
  /-- All operations but two leave the depth as they found it. -/
  kept : ∀ operation : Operation, operation ≠ .descend → operation ≠ .operand .branch →
    (left operation.step parser).depth = parser.depth
  /-- A conditional leaves the parser so many levels deeper as conditions have followed the first,
  and if it can be read, these are the further conditions of its tree. -/
  branches : ∃ count, Enters expression parser count ∧
    (∀ count', Enters expression parser count' → count' = count) ∧
    (left (operand expression .branch) parser).depth = parser.depth + count ∧
    ∀ tree last, operand expression .branch parser = .ok tree last → tree.conditions = count + 1

/-- The bound holds behind any operations, if it does before them. -/
theorem depth_after_le {parser : Parser σ} (bounded : parser.depth ≤ maxNestingDepth)
    (operations : List Operation) : (parser.after operations).depth ≤ maxNestingDepth := by
  induction operations generalizing parser with
  | nil => exact bounded
  | cons operation operations ih => exact ih (operation.throughout.left parser bounded)

/-- However a parser has been used, its depth counts its levels, and no operation passes the bound
at any moment. -/
theorem countsLevels_after (rules : Rules) (source : σ) (operations : List Operation) :
    ((ofSource rules source).after operations).CountsLevels ∧
      ∀ operation : Operation,
        Throughout (fun parser : Parser σ => parser.depth ≤ maxNestingDepth) operation.step := by
  have start : (ofSource rules source).depth ≤ maxNestingDepth := Nat.zero_le _
  have bounded := depth_after_le start operations
  obtain ⟨count, enters, depth, conditions⟩ := branchWithin_enters .expression levels _ bounded
    (Nat.lt_of_lt_of_le (Nat.lt_succ_self _) (Nat.le_add_right _ _))
  exact ⟨{
    bounded := bounded
    refused := fun _ _ => descend_of_error
    kept := fun _ other other' => Operation.keepsDepth other other' _
    branches := ⟨count, enters, fun _ enters' => enters'.unique enters, depth, conditions⟩ },
    Operation.throughout⟩

end Parser

end ExprCheck
