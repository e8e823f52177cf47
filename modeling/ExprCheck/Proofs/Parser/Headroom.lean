import ExprCheck.Proofs.Parser.Blame
import ExprCheck.Proofs.Parser.Consultation
import ExprCheck.Proofs.Parser.Depth
import ExprCheck.Proofs.Parser.Entry
import ExprCheck.Proofs.Parser.Progress
import ExprCheck.Tree.Equality

/-!
# Expressions on a deeper level

The depth of a parser is compared with the deepest level and has no other part in a step. So a step
that starts so many levels deeper does what it does from above, unless it meets the deepest level on
the way, and there it is refused:

* `Parser.lowered count parser`: the parser, so many levels deeper.
* `ParserM.FromBelow count step parser`: from so many levels deeper the step ends as it does from
  above, or it is refused at a token that it passes or gets to from above.
* `ParserM.OnlyRefused count step`: this holds of the step wherever it starts. It pervades the rules
  of the parser, so it holds of every expression (`expression_onlyRefused`).
* `Parser.expression_from_deeper`: an expression that is read from two depths.

Until one of the two runs is refused they have the same tokens left, so a row of expressions has as
many rounds for the one as for the other. Where a recursion runs out of rounds, both are refused.
-/

namespace ExprCheck

open TokenSource (Walk)

variable {σ α β : Type} [TokenSource σ]

/-- The parser, so many levels deeper. -/
def Parser.lowered (count : Nat) (parser : Parser σ) : Parser σ :=
  { parser with depth := parser.depth + count }

namespace ParserM

/-! ### Two runs of a step -/

/-- What a step does from so many levels deeper. It ends as it does from above, as many levels
deeper, or it is refused as too deep, and from above it gets to the same token or to a later one. -/
inductive FromBelow (count : Nat) (step : ParserM σ α) (parser : Parser σ) : Prop where
  | ok {value : α} {after : Parser σ} :
      step parser = .ok value after →
      step (parser.lowered count) = .ok value (after.lowered count) → FromBelow count step parser
  | error {diagnostic : Diagnostic} {after : Parser σ} :
      step parser = .error diagnostic after →
      step (parser.lowered count) = .error diagnostic (after.lowered count) →
      FromBelow count step parser
  | refused {sooner : Parser σ} {later : List Token} :
      step (parser.lowered count) = .error sooner.current.tooDeep sooner →
      Walk later sooner.source (left step parser).source → FromBelow count step parser

namespace FromBelow

variable {count : Nat} {step : ParserM σ α} {parser after : Parser σ}

/-- What succeeds from below succeeds from above. -/
theorem of_ok {value : α} (h : FromBelow count step parser)
    (ran : step (parser.lowered count) = .ok value after) :
    ∃ above, step parser = .ok value above ∧ after = above.lowered count := by
  cases h with
  | ok ranAbove ranBelow =>
    cases ranBelow.symm.trans ran
    exact ⟨_, ranAbove, rfl⟩
  | error _ ranBelow => cases ranBelow.symm.trans ran
  | refused refused _ => cases refused.symm.trans ran

/-- What fails from below for another reason than the depth fails so from above. -/
theorem of_error {diagnostic : Diagnostic} (h : FromBelow count step parser)
    (ran : step (parser.lowered count) = .error diagnostic after)
    (notDeep : diagnostic.isTooDeep = false) :
    ∃ above, step parser = .error diagnostic above ∧ after = above.lowered count := by
  cases h with
  | ok _ ranBelow => cases ranBelow.symm.trans ran
  | error ranAbove ranBelow =>
    cases ranBelow.symm.trans ran
    exact ⟨_, ranAbove, rfl⟩
  | refused refused _ =>
    cases refused.symm.trans ran
    cases notDeep

/-- What is refused as too deep from above is refused so from below, and no later. -/
theorem of_tooDeep (h : FromBelow count step parser)
    (ran : step parser = .error after.current.tooDeep after) :
    ∃ sooner later, step (parser.lowered count) = .error sooner.current.tooDeep sooner ∧
      Walk later sooner.source after.source := by
  cases h with
  | ok ranAbove _ => cases ranAbove.symm.trans ran
  | error ranAbove ranBelow =>
    cases ranAbove.symm.trans ran
    exact ⟨after.lowered count, [], ranBelow, .stay _⟩
  | refused refused walk => exact ⟨_, _, refused, left_of_error ran ▸ walk⟩

end FromBelow

/-- The step goes on along the tokens, and all that a lower start changes is that it may be refused
on the way. -/
structure OnlyRefused (count : Nat) (step : ParserM σ α) : Prop where
  onward : ∀ parser, ∃ passed, Walk passed parser.source (left step parser).source
  fromBelow : ∀ parser, FromBelow count step parser

/-- A step that passes tokens goes on along them. -/
theorem Gets.onward {least : Nat} {step : ParserM σ α} {parser : Parser σ}
    (h : Gets True least step parser) :
    ∃ passed, Walk passed parser.source (ParserM.left step parser).source := by
  obtain ⟨passed, -, -, walk⟩ := h.left.walk
  exact ⟨passed, walk⟩

namespace OnlyRefused

variable {count : Nat}

/-! ### Basic steps -/

/-- A step that passes no token. -/
theorem of_still {step : ParserM σ α} (still : ∀ parser, (left step parser).source = parser.source)
    (fromBelow : ∀ parser, FromBelow count step parser) : OnlyRefused count step where
  onward parser := by
    rw [still]
    exact ⟨[], .stay _⟩
  fromBelow := fromBelow

theorem expect (kind : TokenKind) : OnlyRefused (σ := σ) count (expect kind) where
  onward _ := Gets.onward (Gets.expect fun _ => trivial)
  fromBelow parser := by
    by_cases found : parser.current.kind = kind
    · exact .ok (if_pos found) (if_pos found)
    · exact .error (if_neg found) (if_neg found)

/-- Only here a lower start makes a difference: the deepest level may be met from there. -/
theorem descend : OnlyRefused (σ := σ) count descend where
  onward parser := Gets.onward (Gets.descend parser)
  fromBelow parser := by
    by_cases deep : maxNestingDepth ≤ parser.depth + count
    · -- From above the way down may be refused too, but then at the same token.
      obtain ⟨later, walk⟩ := Gets.onward (Gets.descend parser)
      exact .refused (if_pos deep) walk
    · have above : ¬ maxNestingDepth ≤ parser.depth := fun deep' =>
        deep (Nat.le_add_right_of_le deep')
      have sameLevel : parser.depth + count + 1 = parser.depth + 1 + count := Nat.add_right_comm ..
      refine .ok (if_neg above) ((if_neg deep).trans ?_)
      exact congrArg (fun depth => EStateM.Result.ok () { parser with depth := depth }) sameLevel

/-! ### Putting steps together -/

/-- What is put behind a step takes the parser further along the tokens. -/
theorem onward_bind {next : β → ParserM σ α} (h : ∀ value, OnlyRefused count (next value))
    (step : ParserM σ β) (parser : Parser σ) :
    ∃ further, Walk further (left step parser).source (left (step >>= next) parser).source := by
  rw [left_bind]
  cases ran : step parser with
  | ok value middle =>
    rw [left_of_ok ran]
    exact (h value).onward middle
  | error diagnostic middle =>
    rw [left_of_error ran]
    exact ⟨[], .stay _⟩

/-- If the first step is refused from below, the second takes the parser only further from above. -/
theorem bind {step : ParserM σ β} {next : β → ParserM σ α} (h : OnlyRefused count step)
    (h' : ∀ value, OnlyRefused count (next value)) : OnlyRefused count (step >>= next) where
  onward parser := by
    obtain ⟨passed, walk⟩ := h.onward parser
    obtain ⟨further, walk'⟩ := onward_bind h' step parser
    exact ⟨passed ++ further, walk.trans walk'⟩
  fromBelow parser := by
    cases h.fromBelow parser with
    | error ran ran' => exact .error (bind_of_error ran) (bind_of_error ran')
    | refused refused walk =>
      obtain ⟨further, walk'⟩ := onward_bind h' step parser
      exact .refused (bind_of_error refused) (walk.trans walk')
    | @ok value middle ran ran' =>
      cases (h' value).fromBelow middle with
      | ok goesOn goesOn' =>
        exact .ok ((bind_of_ok ran).trans goesOn) ((bind_of_ok ran').trans goesOn')
      | error goesOn goesOn' =>
        exact .error ((bind_of_ok ran).trans goesOn) ((bind_of_ok ran').trans goesOn')
      | refused refused walk =>
        have same : left (step >>= next) parser = left (next value) middle := by
          rw [left_bind, ran]
        exact .refused ((bind_of_ok ran').trans refused) (same ▸ walk)

/-- Both runs have as many tokens left, so they may take as many rounds. -/
theorem withRemaining {step : Nat → ParserM σ α} (h : ∀ rounds, OnlyRefused count (step rounds)) :
    OnlyRefused count (withRemaining step) where
  onward parser := (h _).onward parser
  fromBelow parser := by
    cases (h (TokenSource.remaining parser.source)).fromBelow parser with
    | ok ran ran' => exact .ok ran ran'
    | error ran ran' => exact .error ran ran'
    | refused refused walk => exact .refused refused walk

/-- Each run gets its own depth back, so that the one is as far below the other as before. -/
theorem restoringDepth {step : ParserM σ α} (h : OnlyRefused count step) :
    OnlyRefused count (restoringDepth step) where
  onward parser := by
    rw [left_restoringDepth]
    exact h.onward parser
  fromBelow parser := by
    cases h.fromBelow parser with
    | ok ran ran' =>
      have below := restoringDepth_of_ok ran'
      exact .ok (restoringDepth_of_ok ran) below
    | error ran ran' =>
      have below := restoringDepth_of_error ran'
      exact .error (restoringDepth_of_error ran) below
    | refused refused walk =>
      have same : (left (ParserM.restoringDepth step) parser).source = (left step parser).source :=
        by rw [left_restoringDepth]
      exact .refused (restoringDepth_of_error refused) (same ▸ walk)

theorem pervades : Pervades fun _ (step : ParserM σ _) => OnlyRefused count step where
  pure _ := .of_still (fun _ => rfl) fun _ => .ok rfl rfl
  throw _ := .of_still (fun _ => rfl) fun _ => .error rfl rfl
  bind := bind
  withRemaining := withRemaining
  current := .of_still (fun _ => rfl) fun _ => .ok rfl rfl
  advance := ⟨fun _ => ⟨_, .pass (.stay _)⟩, fun _ => .ok rfl rfl⟩
  expect := expect
  meaning := .of_still (fun _ => rfl) fun _ => .ok rfl rfl
  refuseDepth := .of_still (fun _ => rfl) fun _ => .error rfl rfl
  descend := descend
  write _ := .of_still (fun _ => rfl) fun _ => .ok rfl rfl
  restoringDepth := restoringDepth

end OnlyRefused

/-- All that a lower start changes about the reading of an expression is that it may be refused. -/
theorem expression_onlyRefused (count : Nat) (power : BindingPower) :
    OnlyRefused (σ := σ) count (expression power) :=
  OnlyRefused.pervades.expression power

end ParserM

open ParserM

/-! ### Expressions -/

/-- **The depth only refuses.** Whatever the source, the rules and the log of a parser are, let it
read an expression from two depths. If the reading from the deeper one succeeds, or fails for
another reason than the depth, it has the same outcome from the upper one, and the parsers behind it
differ in their depth alone. If it is refused as too deep from the upper one, it is refused so from
the deeper one, at the same token or at an earlier one. -/
theorem Parser.expression_from_deeper (parser : Parser σ) {depth deeper : Nat}
    (below : depth ≤ deeper) (bounded : deeper ≤ maxNestingDepth) (power : BindingPower) :
    (∀ tree after,
      expression power { parser with depth := deeper } = .ok tree after →
        expression power { parser with depth := depth } =
          .ok tree { after with depth := depth }) ∧
    (∀ diagnostic after,
      expression power { parser with depth := deeper } = .error diagnostic after →
      diagnostic.isTooDeep = false →
        expression power { parser with depth := depth } =
          .error diagnostic { after with depth := depth }) ∧
    ∀ diagnostic after,
      expression power { parser with depth := depth } = .error diagnostic after →
      diagnostic.isTooDeep = true →
        diagnostic = after.current.tooDeep ∧
          ∃ sooner later,
            expression power { parser with depth := deeper } =
              .error sooner.current.tooDeep sooner ∧
            Walk later sooner.source after.source := by
  obtain ⟨count, rfl⟩ := Nat.exists_eq_add_of_le below
  let upper : Parser σ := { parser with depth := depth }
  have fromBelow := (expression_onlyRefused count power).fromBelow upper
  have keeps : KeepsDepth (σ := σ) (expression power) := .expression power
  refine ⟨fun tree after ran => ?_, fun diagnostic after ran notDeep => ?_,
    fun diagnostic after ran isDeep => ?_⟩
  · obtain ⟨above, ran', rfl⟩ := fromBelow.of_ok ran
    have level : above.depth = depth := keeps.of_ok ran'
    exact ran'.trans (level ▸ rfl)
  · obtain ⟨above, ran', rfl⟩ := fromBelow.of_error ran notDeep
    have level : above.depth = depth := keeps.of_error ran'
    exact ran'.trans (level ▸ rfl)
  · have rejects := rejects_of_expression (Nat.le_trans below bounded) ran
    obtain rfl := rejects.eq_tooDeep isDeep
    exact ⟨rfl, fromBelow.of_tooDeep ran⟩

/-- Three levels are enough for two signs and a number. With so many left they are read as from the
top, and if the number is missing the same is reported. With two levels left it is the number that
lies too deep, and with none left the first of the signs. -/
theorem Parser.expression_from_deeper_signs :
    ∃ number cut : Parser Scanner,
      number = ofSource Rules.standard (Scanner.ofSource "--1" "signs") ∧
      cut = ofSource Rules.standard (Scanner.ofSource "--" "signs") ∧
      (∃ tree after,
        expression .lowest { number with depth := 253 } = .ok tree after ∧
        expression .lowest { number with depth := 0 } = .ok tree { after with depth := 0 }) ∧
      (∃ after,
        expression .lowest { cut with depth := 253 } =
          .error ⟨.unexpectedToken "EOF", ⟨2, "signs"⟩⟩ after ∧
        expression .lowest { cut with depth := 0 } =
          .error ⟨.unexpectedToken "EOF", ⟨2, "signs"⟩⟩ { after with depth := 0 }) ∧
      ∃ after sooner later,
        expression .lowest { number with depth := 254 } =
          .error ⟨.nestingTooDeep 256, ⟨2, "signs"⟩⟩ after ∧
        expression .lowest { number with depth := 256 } =
          .error ⟨.nestingTooDeep 256, ⟨0, "signs"⟩⟩ sooner ∧
        Walk later sooner.source after.source := by
  let number := ofSource Rules.standard (Scanner.ofSource "--1" "signs")
  let cut := ofSource Rules.standard (Scanner.ofSource "--" "signs")
  refine ⟨number, cut, rfl, rfl, ?_, ?_, ?_⟩
  · obtain ⟨tree, read⟩ := exists_ok_of_isOk
      (show (outcome { number with depth := 253 } (expression .lowest)).result.isOk = true by
        decide +kernel)
    obtain ⟨after, ran⟩ := ok_of_outcome read
    have fromTop := (expression_from_deeper number (Nat.zero_le 253) (by decide) .lowest).1
    exact ⟨tree, after, ran, fromTop tree after ran⟩
  · have refused : (outcome { cut with depth := 253 } (expression .lowest)).result =
        .error ⟨.unexpectedToken "EOF", ⟨2, "signs"⟩⟩ := by decide +kernel
    obtain ⟨after, ran⟩ := error_of_outcome refused
    have fromTop := (expression_from_deeper cut (Nat.zero_le 253) (by decide) .lowest).2.1
    exact ⟨after, ran, fromTop _ after ran rfl⟩
  · have refused : (outcome { number with depth := 254 } (expression .lowest)).result =
        .error ⟨.nestingTooDeep 256, ⟨2, "signs"⟩⟩ := by decide +kernel
    have refusedAtOnce : (outcome { number with depth := 256 } (expression .lowest)).result =
        .error ⟨.nestingTooDeep 256, ⟨0, "signs"⟩⟩ := by decide +kernel
    obtain ⟨after, ran⟩ := error_of_outcome refused
    obtain ⟨last, ranAtOnce⟩ := error_of_outcome refusedAtOnce
    have fromDeepest :=
      (expression_from_deeper number (by decide : 254 ≤ 256) (by decide) .lowest).2.2
    obtain ⟨-, sooner, later, ran', walk⟩ := fromDeepest _ after ran rfl
    obtain ⟨-, rfl⟩ := EStateM.Result.error.inj (ranAtOnce.symm.trans ran')
    exact ⟨after, last, later, ran, ranAtOnce, walk⟩

end ExprCheck
