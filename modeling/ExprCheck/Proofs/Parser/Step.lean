import ExprCheck.Parser.State
import ExprCheck.Proofs.Token.Sequence

/-!
# What a step leads to

* `ParserM.Leads`: the condition on a parser under which a step ends as wanted, with one condition
  on its success and one on its failure.
* One equivalence for each basic step and for putting two steps together. They reduce what a rule
  of the parser leads to, to what the steps inside it lead to, without opening the monad.
* `bind_of_ok`, `bind_of_error`: what two steps put together do, from what the first of them does,
  and `of_bind_ok`: what both of them do, from their success.
* `Parser.passed`: the parser after its current token, and `Parser.tokens`: the tokens it has still
  to read.
* `Diagnostic.isTooDeep`: the reports that the depth of the tree is the reason for.
-/

namespace ExprCheck

namespace Diagnostic

/-- Whether the report is about the depth of the tree. -/
def isTooDeep (diagnostic : Diagnostic) : Bool :=
  match diagnostic.fault with
  | .nestingTooDeep _ => true
  | _ => false

end Diagnostic

namespace Token

@[simp] theorem isTooDeep_unexpected (token : Token) : token.unexpected.isTooDeep = false := by
  unfold unexpected
  split <;> rfl

@[simp] theorem isTooDeep_insteadOf (expected : TokenKind) (token : Token) :
    (token.insteadOf expected).isTooDeep = false := by
  unfold insteadOf
  split <;> rfl

@[simp] theorem isTooDeep_misplaced (token : Token) : token.misplaced.isTooDeep = false :=
  rfl

@[simp] theorem isTooDeep_trailing (token : Token) : token.trailing.isTooDeep = false :=
  rfl

end Token

namespace Parser

variable {σ : Type} [TokenSource σ]

/-- The parser after its current token. -/
def passed (parser : Parser σ) : Parser σ :=
  { parser with source := TokenSource.advance parser.source }

/-- The tokens still to be read, the current one first. -/
def tokens (parser : Parser σ) : List Token :=
  TokenSource.tokens parser.source

@[simp] theorem depth_passed (parser : Parser σ) : parser.passed.depth = parser.depth :=
  rfl

theorem current_of_tokens {parser : Parser σ} {first : Token} {later : List Token}
    (h : parser.tokens = first :: later) : parser.current = first :=
  TokenSource.current_of_tokens h

theorem tokens_eq_cons (parser : Parser σ) : ∃ later, parser.tokens = parser.current :: later :=
  TokenSource.tokens_eq_cons parser.source

theorem tokens_of_kind_eof {parser : Parser σ} (h : parser.current.kind = .eof) :
    parser.tokens = [parser.current] :=
  TokenSource.tokens_of_eof h

theorem tokens_of_ne_eof {parser : Parser σ} (h : parser.current.kind ≠ .eof) :
    parser.tokens = parser.current :: parser.passed.tokens :=
  TokenSource.tokens_of_ne_eof h

theorem tokens_passed {parser : Parser σ} {first : Token} {later : List Token}
    (h : parser.tokens = first :: later) (notEnd : first.kind ≠ .eof) :
    parser.passed.tokens = later :=
  TokenSource.tokens_advance h notEnd

end Parser

namespace ParserM

variable {σ α β : Type}

/-- The step ends with a value and a parser of which `done` holds, or with a report and a parser of
which `failed` holds. -/
def Leads (step : ParserM σ α) (done : α → Parser σ → Prop)
    (failed : Diagnostic → Parser σ → Prop) (parser : Parser σ) : Prop :=
  match step parser with
  | .ok value after => done value after
  | .error diagnostic after => failed diagnostic after

variable {done : α → Parser σ → Prop} {failed : Diagnostic → Parser σ → Prop} {parser : Parser σ}

/-- A step that leads to something leads to everything weaker. -/
theorem Leads.mono {step : ParserM σ α} {done' : α → Parser σ → Prop}
    {failed' : Diagnostic → Parser σ → Prop} (h : Leads step done failed parser)
    (ok : ∀ value after, done value after → done' value after)
    (error : ∀ diagnostic after, failed diagnostic after → failed' diagnostic after) :
    Leads step done' failed' parser := by
  unfold Leads at h ⊢
  cases outcome : step parser with
  | ok value after =>
    rw [outcome] at h
    exact ok value after h
  | error diagnostic after =>
    rw [outcome] at h
    exact error diagnostic after h

/-- What two conditions on a step say of it, taken together. -/
theorem Leads.and {step : ParserM σ α} {done' : α → Parser σ → Prop}
    {failed' : Diagnostic → Parser σ → Prop} (h : Leads step done failed parser)
    (h' : Leads step done' failed' parser) :
    Leads step (fun value after => done value after ∧ done' value after)
      (fun diagnostic after => failed diagnostic after ∧ failed' diagnostic after) parser := by
  unfold Leads at h h' ⊢
  cases outcome : step parser with
  | ok value after =>
    rw [outcome] at h h'
    exact ⟨h, h'⟩
  | error diagnostic after =>
    rw [outcome] at h h'
    exact ⟨h, h'⟩

@[simp] theorem leads_pure {value : α} :
    Leads (pure value) done failed parser ↔ done value parser :=
  Iff.rfl

@[simp] theorem leads_throw {diagnostic : Diagnostic} :
    Leads (throw diagnostic) done failed parser ↔ failed diagnostic parser :=
  Iff.rfl

/-- Two steps lead to what the first leads to with what the second leads to from there. -/
@[simp] theorem leads_bind {step : ParserM σ β} {next : β → ParserM σ α} :
    Leads (step >>= next) done failed parser ↔
      Leads step (fun value after => Leads (next value) done failed after) failed parser := by
  unfold Leads
  rw [show (step >>= next) parser = EStateM.bind step next parser from rfl, EStateM.bind]
  cases step parser <;> rfl

theorem bind_of_ok {step : ParserM σ β} {next : β → ParserM σ α} {value : β} {after : Parser σ}
    (ran : step parser = .ok value after) : (step >>= next) parser = next value after := by
  rw [show (step >>= next) parser = EStateM.bind step next parser from rfl, EStateM.bind, ran]

theorem bind_of_error {step : ParserM σ β} {next : β → ParserM σ α} {diagnostic : Diagnostic}
    {after : Parser σ} (ran : step parser = .error diagnostic after) :
    (step >>= next) parser = .error diagnostic after := by
  rw [show (step >>= next) parser = EStateM.bind step next parser from rfl, EStateM.bind, ran]

/-- What follows a step depends on nothing but the outcome of the step. -/
theorem bind_congr_outcome {step step' : ParserM σ β} {other : Parser σ}
    (same : step parser = step' other) (next : β → ParserM σ α) :
    (step >>= next) parser = (step' >>= next) other := by
  cases ran : step' other with
  | ok value after => rw [bind_of_ok (same.trans ran), bind_of_ok ran]
  | error diagnostic after => rw [bind_of_error (same.trans ran), bind_of_error ran]

/-- Two steps succeed if the first does and then the second. -/
theorem of_bind_ok {step : ParserM σ β} {next : β → ParserM σ α} {value : α} {after : Parser σ}
    (ran : (step >>= next) parser = .ok value after) :
    ∃ value' middle, step parser = .ok value' middle ∧ next value' middle = .ok value after := by
  cases first : step parser with
  | ok value' middle => exact ⟨value', middle, rfl, (bind_of_ok first).symm.trans ran⟩
  | error diagnostic middle =>
    rw [bind_of_error first] at ran
    cases ran

/-- After a success the second step goes on from there. -/
theorem leads_of_ok {step : ParserM σ β} {next : β → ParserM σ α} {value : β} {after : Parser σ}
    (ran : step parser = .ok value after) (h : Leads (next value) done failed after) :
    Leads (step >>= next) done failed parser := by
  unfold Leads
  rw [bind_of_ok ran]
  exact h

@[simp] theorem leads_rules {done : Rules → Parser σ → Prop} :
    Leads rules done failed parser ↔ done parser.rules parser :=
  Iff.rfl

@[simp] theorem leads_write {entry : LogEntry} {done : Unit → Parser σ → Prop} :
    Leads (write entry) done failed parser ↔ done () { parser with log := entry :: parser.log } :=
  Iff.rfl

@[simp] theorem leads_restoringDepth {step : ParserM σ α} :
    Leads (restoringDepth step) done failed parser ↔
      Leads step (fun value after => done value { after with depth := parser.depth })
        (fun diagnostic after => failed diagnostic { after with depth := parser.depth })
        parser := by
  unfold Leads restoringDepth
  cases step parser <;> rfl

theorem restoringDepth_of_ok {step : ParserM σ α} {value : α} {after : Parser σ}
    (ran : step parser = .ok value after) :
    restoringDepth step parser = .ok value { after with depth := parser.depth } := by
  rw [restoringDepth, ran]

theorem restoringDepth_of_error {step : ParserM σ α} {diagnostic : Diagnostic} {after : Parser σ}
    (ran : step parser = .error diagnostic after) :
    restoringDepth step parser = .error diagnostic { after with depth := parser.depth } := by
  rw [restoringDepth, ran]

variable [TokenSource σ]

@[simp] theorem leads_current {done : Token → Parser σ → Prop} :
    Leads current done failed parser ↔ done parser.current parser :=
  Iff.rfl

theorem bind_current {next : Token → ParserM σ α} :
    (current >>= next) parser = next parser.current parser :=
  rfl

@[simp] theorem leads_advance {done : Token → Parser σ → Prop} :
    Leads advance done failed parser ↔ done parser.current parser.passed :=
  Iff.rfl

@[simp] theorem leads_withRemaining {step : Nat → ParserM σ α} :
    Leads (withRemaining step) done failed parser ↔
      Leads (step (TokenSource.remaining parser.source)) done failed parser :=
  Iff.rfl

@[simp] theorem leads_expect {expected : TokenKind} {done : Token → Parser σ → Prop} :
    Leads (expect expected) done failed parser ↔
      (parser.current.kind = expected → done parser.current parser.passed) ∧
        (parser.current.kind ≠ expected → failed (parser.current.insteadOf expected) parser) := by
  by_cases h : parser.current.kind = expected
  · simp only [Leads, expect, if_pos h]
    exact ⟨fun passed => ⟨fun _ => passed, fun h' => absurd h h'⟩, fun both => both.1 h⟩
  · simp only [Leads, expect, if_neg h]
    exact ⟨fun refused => ⟨fun h' => absurd h' h, fun _ => refused⟩, fun both => both.2 h⟩

@[simp] theorem leads_descend {done : Unit → Parser σ → Prop} :
    Leads descend done failed parser ↔
      (parser.depth < maxNestingDepth → done () { parser with depth := parser.depth + 1 }) ∧
        (maxNestingDepth ≤ parser.depth → failed parser.current.tooDeep parser) := by
  by_cases h : maxNestingDepth ≤ parser.depth
  · simp only [Leads, descend, if_pos h]
    exact ⟨fun refused => ⟨fun h' => absurd h (Nat.not_le.2 h'), fun _ => refused⟩,
      fun both => both.2 h⟩
  · simp only [Leads, descend, if_neg h]
    exact ⟨fun deeper => ⟨fun _ => deeper, fun h' => absurd h' h⟩,
      fun both => both.1 (Nat.not_le.1 h)⟩

end ParserM

end ExprCheck
