import ExprCheck.Parser.Program
import ExprCheck.Proofs.Parser.Step

/-!
# What the rules of the parser are put together from

Every rule of the parser is put together from a few basic steps, and what each of these keeps, all
of them keep:

* `ParserM.left`: the parser that a step leaves, whether it succeeds or fails.
* `ParserM.Basic`: the basic steps.
* `ParserM.Throughout good step`: the step is put together from basic steps that keep what is good,
  so that the parser is good at every moment of it. `Throughout.left`: it is good behind it too.
* `Throughout.framed`: no step looks at the log. With other entries before its own it does the same.
* `ParserM.Combines`, `ParserM.Composes`: the properties of steps that go through every way of
  putting steps together, with one lemma for each rule that leaves the level alone.
* `Throughout.expression`: an invariant of the basic steps holds throughout the reading of an
  expression.
-/

namespace ExprCheck

variable {σ α β : Type}

/-- The parser, had it other things to log before. -/
def Parser.onTop (log : List LogEntry) (parser : Parser σ) : Parser σ :=
  { parser with log := parser.log ++ log }

namespace ParserM

/-- The parser that a step leaves, whether it succeeds or fails. -/
def left (step : ParserM σ α) (parser : Parser σ) : Parser σ :=
  match step parser with
  | .ok _ after => after
  | .error _ after => after

theorem left_of_ok {step : ParserM σ α} {parser after : Parser σ} {value : α}
    (ran : step parser = .ok value after) : left step parser = after := by
  rw [left, ran]

theorem left_of_error {step : ParserM σ α} {parser after : Parser σ} {diagnostic : Diagnostic}
    (ran : step parser = .error diagnostic after) : left step parser = after := by
  rw [left, ran]

/-- Two steps leave what the second leaves behind the first, if the first succeeds. -/
theorem left_bind (step : ParserM σ β) (next : β → ParserM σ α) (parser : Parser σ) :
    left (step >>= next) parser =
      match step parser with
      | .ok value middle => left (next value) middle
      | .error _ middle => middle := by
  cases first : step parser with
  | ok value middle => rw [left, bind_of_ok first]; rfl
  | error diagnostic middle => rw [left, bind_of_error first]

/-- To give another value for a value changes nothing in the parser. -/
theorem left_finish (step : ParserM σ β) (finish : β → α) (parser : Parser σ) :
    left (step >>= fun value => pure (finish value)) parser = left step parser := by
  rw [left_bind]
  unfold left
  cases step parser <;> rfl

theorem left_restoringDepth (step : ParserM σ α) (parser : Parser σ) :
    left (restoringDepth step) parser = { left step parser with depth := parser.depth } := by
  unfold left restoringDepth
  cases step parser <;> rfl

/-- Changes the rules. -/
def changeRules (change : Rules → Rules) : ParserM σ Unit := fun parser =>
  .ok () { parser with rules := change parser.rules }

variable [TokenSource σ]

/-- The steps that all others are put together from. -/
inductive Basic : {α : Type} → ParserM σ α → Prop where
  | pure {α : Type} (value : α) : Basic (pure value)
  | throw {α : Type} (diagnostic : Diagnostic) : Basic (α := α) (throw diagnostic)
  | refuseDepth {α : Type} : Basic (α := α) refuseDepth
  | current : Basic current
  | rules : Basic rules
  | changeRules (change : Rules → Rules) : Basic (changeRules change)
  | advance : Basic advance
  | expect (kind : TokenKind) : Basic (expect kind)
  | descend : Basic descend
  | write (entry : LogEntry) : Basic (write entry)

/-- A step that is put together from basic ones, each of which leads from good parsers to good ones.
So the parser is good at every moment of the step. -/
inductive Throughout (good : Parser σ → Prop) : {α : Type} → ParserM σ α → Prop where
  | basic {α : Type} {step : ParserM σ α} :
      Basic step → (∀ parser, good parser → good (left step parser)) → Throughout good step
  | bind {α β : Type} {step : ParserM σ β} {next : β → ParserM σ α} :
      Throughout good step → (∀ value, Throughout good (next value)) →
      Throughout good (step >>= next)
  | restoringDepth {α : Type} {step : ParserM σ α} :
      (∀ parser after, good parser → good after → good { after with depth := parser.depth }) →
      Throughout good step → Throughout good (restoringDepth step)
  | withRemaining {α : Type} {step : Nat → ParserM σ α} :
      (∀ rounds, Throughout good (step rounds)) → Throughout good (withRemaining step)

/-- What is good at every moment of a step is good behind it. -/
theorem Throughout.left {good : Parser σ → Prop} {step : ParserM σ α}
    (h : Throughout good step) : ∀ parser, good parser → good (left step parser) := by
  induction h with
  | basic _ keeps => exact keeps
  | @bind _ _ step next _ _ ih ih' =>
    intro parser isGood
    have middle := ih parser isGood
    rw [left_bind]
    cases first : step parser with
    | ok value after => exact ih' value after (left_of_ok first ▸ middle)
    | error diagnostic after => exact left_of_error first ▸ middle
  | restoringDepth restored _ ih =>
    intro parser isGood
    rw [left_restoringDepth]
    exact restored parser _ isGood (ih parser isGood)
  | withRemaining _ ih => exact fun parser => ih _ parser

/-! ### The log -/

/-- The result of a step for a parser that had other things to log before. -/
def resultOnTop (log : List LogEntry) :
    EStateM.Result Diagnostic (Parser σ) α → EStateM.Result Diagnostic (Parser σ) α
  | .ok value after => .ok value (after.onTop log)
  | .error diagnostic after => .error diagnostic (after.onTop log)

theorem Basic.framed {step : ParserM σ α} (h : Basic step) (log : List LogEntry)
    (parser : Parser σ) : step (parser.onTop log) = resultOnTop log (step parser) := by
  cases h with
  | expect kind =>
    unfold ParserM.expect
    by_cases found : parser.current.kind = kind
    · rw [if_pos found, if_pos (show (parser.onTop log).current.kind = kind from found)]
      rfl
    · rw [if_neg found, if_neg (show ¬ (parser.onTop log).current.kind = kind from found)]
      rfl
  | descend =>
    unfold ParserM.descend
    by_cases deep : maxNestingDepth ≤ parser.depth
    · rw [if_pos deep, if_pos (show maxNestingDepth ≤ (parser.onTop log).depth from deep)]
      rfl
    · rw [if_neg deep, if_neg (show ¬ maxNestingDepth ≤ (parser.onTop log).depth from deep)]
      rfl
  | _ => rfl

/-- What was logged before has no part in what a step does, and it stays in the log. -/
theorem Throughout.framed {good : Parser σ → Prop} {step : ParserM σ α} (h : Throughout good step)
    (log : List LogEntry) :
    ∀ parser, step (parser.onTop log) = resultOnTop log (step parser) := by
  induction h with
  | basic basic _ => exact basic.framed log
  | @bind _ _ step next _ _ ih ih' =>
    intro parser
    cases first : step parser with
    | ok value middle =>
      rw [bind_of_ok first, bind_of_ok ((ih parser).trans (congrArg _ first))]
      exact ih' value middle
    | error diagnostic middle =>
      rw [bind_of_error first, bind_of_error ((ih parser).trans (congrArg _ first))]
      rfl
  | @restoringDepth _ step _ _ ih =>
    intro parser
    unfold ParserM.restoringDepth
    rw [ih parser]
    cases step parser <;> rfl
  | withRemaining _ ih => exact fun parser => ih _ parser

/-! ### The rules of the parser -/

/-- What holds of the basic steps that leave the level and the rules alone, and of steps that are
put together from steps of which it holds. -/
structure Combines (P : (α : Type) → ParserM σ α → Prop) : Prop where
  pure : ∀ {α : Type} (value : α), P α (Pure.pure value)
  throw : ∀ {α : Type} (diagnostic : Diagnostic), P α (MonadExcept.throw diagnostic)
  bind : ∀ {α β : Type} {step : ParserM σ β} {next : β → ParserM σ α},
    P β step → (∀ value, P α (next value)) → P α (step >>= next)
  withRemaining : ∀ {α : Type} {step : Nat → ParserM σ α},
    (∀ rounds, P α (step rounds)) → P α (withRemaining step)
  current : P Token current
  advance : P Token advance
  expect : ∀ kind, P Token (expect kind)

namespace Combines

variable {P : (α : Type) → ParserM σ α → Prop} (combines : Combines P)
  {nested : BindingPower → ParserM σ Expr} (inner : ∀ power, P Expr (nested power))

include combines

theorem literal : P Expr literal := by
  refine combines.bind combines.current fun token => ?_
  split
  · exact combines.bind combines.advance fun _ => combines.pure _
  · exact combines.throw _

theorem misplaced : P Expr misplaced :=
  combines.bind combines.current fun _ => combines.throw _

include inner

theorem group : P Expr (group nested) :=
  combines.bind combines.advance fun _ => combines.bind (inner _) fun _ =>
    combines.bind (combines.expect _) fun _ => combines.pure _

theorem itemsUntil (closing : TokenKind) (rounds : Nat) :
    P (List Expr) (itemsUntil nested closing rounds) := by
  induction rounds with
  | zero => exact combines.pure _
  | succ rounds ih =>
    refine combines.bind combines.current fun token => ?_
    split
    · exact combines.pure _
    · exact combines.bind (inner _) fun _ => combines.bind ih fun _ => combines.pure _

theorem block : P Expr (block nested) :=
  combines.bind (combines.expect _) fun _ =>
    combines.bind (combines.withRemaining (combines.itemsUntil inner _)) fun _ =>
      combines.bind (combines.expect _) fun _ => combines.pure _

theorem application (rule : InfixRule) (left : Expr) : P Expr (application nested rule left) :=
  combines.bind combines.advance fun _ => combines.bind (inner _) fun _ => combines.pure _

/-- The rules for signs and for conditionals do more than this. -/
theorem operand (rule : PrefixRule) (sign : rule = .sign → P Expr (sign nested))
    (branch : rule = .branch → P Expr (branch nested)) : P Expr (operand nested rule) := by
  cases rule with
  | literal => exact combines.literal
  | sign => exact sign rfl
  | group => exact combines.group inner
  | block => exact combines.block inner
  | branch => exact branch rfl
  | misplaced => exact combines.misplaced

end Combines

/-- What holds of the basic steps that leave the level alone, and of steps that are put together
from steps of which it holds. -/
structure Composes (P : (α : Type) → ParserM σ α → Prop) : Prop extends Combines P where
  rules : P Rules ParserM.rules

namespace Composes

variable {P : (α : Type) → ParserM σ α → Prop} (composes : Composes P)
  {nested : BindingPower → ParserM σ Expr} (inner : ∀ power, P Expr (nested power))

include composes inner

theorem sign : P Expr (sign nested) :=
  composes.bind composes.rules fun _ => composes.bind composes.advance fun _ =>
    composes.bind (inner _) fun _ => composes.pure _

/-- Only the rule for conditionals does more than this. -/
theorem operand (rule : PrefixRule) (branch : rule = .branch → P Expr (branch nested)) :
    P Expr (operand nested rule) :=
  composes.toCombines.operand inner rule (fun _ => composes.sign inner) branch

end Composes

/-- What every basic step of reading keeps. -/
structure Invariant (good : Parser σ → Prop) : Prop where
  passed : ∀ parser, good parser → good parser.passed
  deeper : ∀ parser, good parser → parser.depth < maxNestingDepth →
    good { parser with depth := parser.depth + 1 }
  written : ∀ parser entry, good parser → good { parser with log := entry :: parser.log }
  restored : ∀ parser after, good parser → good after → good { after with depth := parser.depth }

namespace Throughout

variable {good : Parser σ → Prop}

theorem refuseDepth : Throughout (α := α) good refuseDepth :=
  .basic .refuseDepth fun _ isGood => isGood

variable (keeps : Invariant good)

include keeps

theorem descend : Throughout good descend := by
  refine .basic .descend fun parser isGood => ?_
  unfold ParserM.left ParserM.descend
  by_cases deep : maxNestingDepth ≤ parser.depth
  · rw [if_pos deep]
    exact isGood
  · rw [if_neg deep]
    exact keeps.deeper parser isGood (Nat.not_le.1 deep)

theorem expect (kind : TokenKind) : Throughout good (expect kind) := by
  refine .basic (.expect kind) fun parser isGood => ?_
  unfold ParserM.left ParserM.expect
  by_cases found : parser.current.kind = kind
  · rw [if_pos found]
    exact keeps.passed parser isGood
  · rw [if_neg found]
    exact isGood

theorem composes : Composes fun _ step => Throughout good step where
  pure value := .basic (.pure value) fun _ isGood => isGood
  throw diagnostic := .basic (.throw diagnostic) fun _ isGood => isGood
  bind := .bind
  withRemaining := .withRemaining
  current := .basic .current fun _ isGood => isGood
  rules := .basic .rules fun _ isGood => isGood
  advance := .basic .advance keeps.passed
  expect := expect keeps

variable {nested : BindingPower → ParserM σ Expr} (inner : ∀ power, Throughout good (nested power))

include inner

theorem branchWithin (rounds : Nat) : Throughout good (branchWithin nested rounds) := by
  have block := (composes keeps).block inner
  induction rounds with
  | zero => exact refuseDepth
  | succ rounds ih =>
    refine .bind (composes keeps).advance fun word => .bind (inner _) fun condition =>
      .bind block fun body => .bind (composes keeps).current fun token => ?_
    split
    · exact .bind (descend keeps) fun _ => .bind ih fun _ => (composes keeps).pure _
    · exact .bind (composes keeps).advance fun _ => .bind block fun _ => (composes keeps).pure _
    · exact (composes keeps).pure _

theorem operand (rule : PrefixRule) : Throughout good (operand nested rule) :=
  (composes keeps).operand inner rule fun _ => branchWithin keeps inner levels

theorem extend (power : BindingPower) (rounds : Nat) (left : Expr) :
    Throughout good (extend nested power rounds left) := by
  induction rounds generalizing left with
  | zero => exact refuseDepth
  | succ rounds ih =>
    refine .bind (composes keeps).rules fun rules => .bind (composes keeps).current fun token => ?_
    split
    · exact (composes keeps).pure _
    · split
      · exact .bind (descend keeps) fun _ =>
          .bind ((composes keeps).application inner _ left) fun left => ih left
      · exact (composes keeps).pure _

theorem chain (power : BindingPower) : Throughout good (chain nested power) := by
  refine .bind (composes keeps).rules fun rules => .bind (composes keeps).current fun token => ?_
  split
  · exact (composes keeps).throw _
  · exact .bind (descend keeps) fun _ =>
      .bind (.basic (.write _) fun parser isGood => keeps.written parser _ isGood) fun _ =>
        .bind (operand keeps inner _) fun left => extend keeps inner power levels left

omit inner in
theorem expressionWithin (rounds : Nat) (power : BindingPower) :
    Throughout good (expressionWithin rounds power) := by
  induction rounds generalizing power with
  | zero => exact refuseDepth
  | succ rounds ih => exact .restoringDepth keeps.restored (chain keeps ih power)

omit inner in
theorem expression (power : BindingPower) : Throughout good (expression power) :=
  expressionWithin keeps levels power

end Throughout

end ParserM

end ExprCheck
