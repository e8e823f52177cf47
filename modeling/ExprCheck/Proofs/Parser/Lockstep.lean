import ExprCheck.Proofs.Parser.Tandem

/-!
# Two parsers in step

The parser never looks beyond the current token. So two parsers with the same tokens ahead of them
do the same until the first of them has passed what they share, whatever is behind that. This is
what two parsers in tandem do whose tokens are the same in their places too:

* `Parser.Shares`: two parsers that differ in their sources alone, with some tokens that both are to
  read next, and different ones behind them.
* `Parser.InStep`: two such parsers, unless the first of them is past what it shared.
* `ParserM.Alike`: two steps that start from such parsers end with the same value or with the same
  report, and the parsers behind them share what is left, unless the first parser is past it. A
  success passes at least so many tokens.
* `ParserM.Alike.of_tandem`: steps in tandem end alike where places correspond to themselves alone.
* `itemsUntil_alike`, `program_alike`, `soleExpression_alike`: rows of expressions, whole sources.
-/

namespace ExprCheck

open ExprCheck.Correspondence (exact)

variable {σ τ α β : Type} [TokenSource σ] [TokenSource τ]

namespace Parser

variable (rest rest' : List Token)

/-- Two parsers that differ in their sources alone, and these have some tokens in common before the
rest of each. -/
structure Shares (parser : Parser σ) (other : Parser τ) : Prop where
  rules : other.rules = parser.rules
  tokens : ∃ shared, shared ≠ [] ∧ parser.tokens = shared ++ rest ∧ other.tokens = shared ++ rest'
  depth : other.depth = parser.depth
  log : other.log = parser.log

/-- Two parsers under the standard rules that share the tokens ahead of them, unless the first is
past what it shared. -/
structure InStep (parser : Parser σ) (other : Parser τ) : Prop where
  standard : parser.rules = Rules.standard
  shares : parser.Shares rest rest' other ∨ parser.IsPast rest

variable {rest rest'} {parser : Parser σ} {other : Parser τ}

theorem corresponds_exact_iff :
    parser.Corresponds exact rest rest' other ↔ parser.Shares rest rest' other := by
  constructor
  · rintro ⟨rules, ⟨shared, shared', notNil, all, eq, eq'⟩, depth, log⟩
    obtain rfl := eq_of_forall₂ (fun _ _ _ same => Token.Matches.eq same) all
    exact ⟨rules, ⟨shared', notNil, eq, eq'⟩, depth,
      eq_of_forall₂ (fun _ _ _ same => LogEntry.Matches.eq same) log⟩
  · rintro ⟨rules, ⟨shared, notNil, eq, eq'⟩, depth, log⟩
    refine ⟨rules, ⟨shared, shared, notNil, ?_, eq, eq'⟩, depth, ?_⟩
    · exact List.forall₂_same.2 fun token _ => token.matches_exact
    · rw [log]
      exact List.forall₂_same.2 fun entry _ => entry.matches_exact

theorem InStep.inTandem (inStep : parser.InStep rest rest' other) :
    parser.InTandem exact rest rest' other :=
  ⟨inStep.standard, inStep.shares.imp_left corresponds_exact_iff.2⟩

end Parser

open ExprCheck.Parser (Shares IsPast InStep corresponds_exact_iff)

namespace ParserM

/-- Two steps end with the same value or with the same report, and with parsers that share what they
shared before, or the first of them ends past all of that. With a value it has passed at least so
many tokens. -/
inductive Alike (rest rest' : List Token) (passes : Nat) (step : ParserM σ α) (step' : ParserM τ α)
    (parser : Parser σ) (other : Parser τ) : Prop where
  | ok {value after after'} :
      step parser = .ok value after → step' other = .ok value after' →
      after.rules = Rules.standard → after.Shares rest rest' after' →
      after.tokens.length + passes ≤ parser.tokens.length →
      Alike rest rest' passes step step' parser other
  | error {diagnostic after after'} :
      step parser = .error diagnostic after → step' other = .error diagnostic after' →
      after.Shares rest rest' after' → after.tokens.length ≤ parser.tokens.length →
      Alike rest rest' passes step step' parser other
  | lost :
      Leads step (fun _ after => Lost rest passes parser after) (fun _ after => after.IsPast rest)
        parser →
      Alike rest rest' passes step step' parser other

variable {rest rest' : List Token} {passes : Nat} {parser : Parser σ} {other : Parser τ}

/-- Steps in tandem end alike if values that agree are the same. -/
theorem Alike.of_tandem {agree : α → α → Prop} {step : ParserM σ α} {step' : ParserM τ α}
    (h : Tandem exact rest rest' passes agree step step' parser other)
    (agrees : ∀ value value', agree value value' → value' = value) :
    Alike rest rest' passes step step' parser other := by
  cases h with
  | ok ran ran' agree standard corresponds shorter =>
    obtain rfl := agrees _ _ agree
    exact .ok ran ran' standard (corresponds_exact_iff.1 corresponds) shorter
  | error ran ran' same corresponds shorter =>
    obtain rfl := same.eq
    exact .error ran ran' (corresponds_exact_iff.1 corresponds) shorter
  | lost leads => exact .lost (leads.mono (fun _ _ done => done.1) fun _ _ isPast => isPast)

/-- A failure before the end of what is shared is a failure of both. -/
theorem Alike.error_of_not_isPast {step : ParserM σ α} {step' : ParserM τ α}
    {diagnostic : Diagnostic} {after : Parser σ}
    (h : Alike rest rest' passes step step' parser other)
    (ran : step parser = .error diagnostic after) (ahead : ¬ after.IsPast rest) :
    ∃ after', step' other = .error diagnostic after' := by
  cases h with
  | ok ran' =>
    rw [ran] at ran'
    cases ran'
  | error ran' ranOther =>
    rw [ran] at ran'
    cases ran'
    exact ⟨_, ranOther⟩
  | lost leads =>
    unfold Leads at leads
    rw [ran] at leads
    exact absurd leads ahead

/-! ### Rows and whole sources -/

/-- Two parsers in step read the same row of expressions, if each may go round often enough. -/
theorem itemsUntil_alike (inStep : parser.InStep rest rest' other) (closing : TokenKind)
    {rounds rounds' : Nat} (enough : parser.tokens.length ≤ rounds + 1)
    (enough' : parser.Shares rest rest' other → other.tokens.length ≤ rounds' + 1) :
    Alike rest rest' 0 (itemsUntil expression closing rounds)
      (itemsUntil expression closing rounds') parser other := by
  have tandem := itemsUntil_tandem (expressionWithin_tandem levels) inStep.inTandem closing enough
    fun corresponds => enough' (corresponds_exact_iff.1 corresponds)
  exact .of_tandem tandem fun _ _ => eq_of_forall₂ fun _ _ _ same => Tree.Matches.eq same

theorem program_alike (inStep : parser.InStep rest rest' other) :
    Alike rest rest' 0 program program parser other :=
  .of_tandem (program_tandem inStep.inTandem) fun _ _ same => same.eq

theorem soleExpression_alike (inStep : parser.InStep rest rest' other) :
    Alike rest rest' 0 soleExpression soleExpression parser other :=
  .of_tandem (soleExpression_tandem inStep.inTandem) fun _ _ same => same.eq

end ParserM

end ExprCheck
