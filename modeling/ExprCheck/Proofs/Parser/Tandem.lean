import ExprCheck.Proofs.Parser.Soundness
import ExprCheck.Proofs.Tree.Correspondence

/-!
# Two parsers in tandem

No decision of the parser depends on a place, and none on what is behind the current token. So two
parsers whose tokens match, wherever they stand, do the same until the first of them has passed the
tokens that match, whatever is behind these:

* `Parser.Corresponds`: two parsers that differ in their sources and in what they have logged, where
  some tokens that they are to read next match, before different ones.
* `Parser.IsPast`: a parser that has passed all of them.
* `ParserM.Tandem`: two steps that start from such parsers end with values that agree or with
  reports that match, and what is left to the parsers behind them still matches, unless the first
  parser is past it. A success passes at least so many tokens.
* One lemma for each way of putting steps together, for each basic step and for each rule of the
  parser. A parser that is past the matching tokens stays past them, which is part of every lemma.
* `program_tandem`, `soleExpression_tandem`: whole sources.

The rounds of a row of expressions are counted by `remaining`, which two parsers in tandem need not
agree on. Each element of the row passes a token, so either count lasts to its end.
-/

namespace ExprCheck

variable {σ τ α β α' β' : Type} [TokenSource σ] [TokenSource τ]

/-! ### Reports on tokens that match -/

namespace Token.Matches

variable {places : Correspondence} {token token' : Token}

theorem unexpected (h : token.Matches places token') :
    token.unexpected.Matches places token'.unexpected := by
  refine ⟨?_, h.span.start⟩
  simp only [Token.unexpected, h.kind, h.value]

theorem insteadOf (h : token.Matches places token') (expected : TokenKind) :
    (token.insteadOf expected).Matches places (token'.insteadOf expected) := by
  refine ⟨?_, h.span.start⟩
  simp only [Token.insteadOf, h.kind, h.value]

theorem misplaced (h : token.Matches places token') :
    token.misplaced.Matches places token'.misplaced :=
  ⟨by simp only [Token.misplaced, h.value], h.span.start⟩

theorem tooDeep (h : token.Matches places token') : token.tooDeep.Matches places token'.tooDeep :=
  ⟨rfl, h.span.start⟩

theorem trailing (h : token.Matches places token') :
    token.trailing.Matches places token'.trailing :=
  ⟨by simp only [Token.trailing, h.value], h.span.start⟩

end Token.Matches

namespace Parser

variable (places : Correspondence) (rest rest' : List Token)

/-- Two parsers with tokens ahead of them that match, before the rest of each. -/
structure Corresponds (parser : Parser σ) (other : Parser τ) : Prop where
  rules : other.rules = parser.rules
  tokens : ∃ shared shared', shared ≠ [] ∧ List.Forall₂ (Token.Matches places) shared shared' ∧
    parser.tokens = shared ++ rest ∧ other.tokens = shared' ++ rest'
  depth : other.depth = parser.depth
  log : List.Forall₂ (LogEntry.Matches places) parser.log other.log

/-- A parser that has at most the rest to read. -/
def IsPast (parser : Parser σ) : Prop :=
  parser.tokens.length ≤ rest.length

/-- Two parsers under the standard rules with tokens ahead of them that match, unless the first is
past them. -/
structure InTandem (parser : Parser σ) (other : Parser τ) : Prop where
  standard : parser.rules = Rules.standard
  corresponds : parser.Corresponds places rest rest' other ∨ parser.IsPast rest

variable {places rest rest'} {parser : Parser σ} {other : Parser τ}

namespace Corresponds

theorem current (h : parser.Corresponds places rest rest' other) :
    parser.current.Matches places other.current := by
  obtain ⟨shared, shared', notNil, all, eq, eq'⟩ := h.tokens
  cases all with
  | nil => exact absurd rfl notNil
  | cons first _ => rwa [parser.current_of_tokens eq, other.current_of_tokens eq']

theorem restored (h : parser.Corresponds places rest rest' other) {depth depth' : Nat}
    (same : depth' = depth) :
    Corresponds places rest rest' { parser with depth := depth }
      { other with depth := depth' } :=
  ⟨h.rules, h.tokens, same, h.log⟩

theorem not_isPast (h : parser.Corresponds places rest rest' other) : ¬ parser.IsPast rest := by
  obtain ⟨shared, _, notNil, -, eq, -⟩ := h.tokens
  have := List.length_pos_iff.2 notNil
  rw [IsPast, eq, List.length_append]
  omega

/-- Behind the current token the tokens match as before it, or the first parser is past them. -/
theorem passed (h : parser.Corresponds places rest rest' other)
    (notEnd : parser.current.kind ≠ .eof) :
    parser.passed.Corresponds places rest rest' other.passed ∨ parser.passed.IsPast rest := by
  have notEnd' : other.current.kind ≠ .eof := h.current.kind ▸ notEnd
  obtain ⟨shared, shared', notNil, all, eq, eq'⟩ := h.tokens
  cases all with
  | nil => exact absurd rfl notNil
  | cons first all =>
    rw [parser.current_of_tokens eq] at notEnd
    rw [other.current_of_tokens eq'] at notEnd'
    have passed := parser.tokens_passed eq notEnd
    have passed' := other.tokens_passed eq' notEnd'
    cases all with
    | nil => exact .inr (Nat.le_of_eq (congrArg List.length passed))
    | cons second all =>
      exact .inl ⟨h.rules, ⟨_, _, List.cons_ne_nil _ _, .cons second all, passed, passed'⟩, h.depth,
        h.log⟩

/-- What the one parser passes, the other passes too. -/
theorem length_eq (h : parser.Corresponds places rest rest' other) :
    other.tokens.length + rest.length = parser.tokens.length + rest'.length := by
  obtain ⟨shared, shared', -, all, eq, eq'⟩ := h.tokens
  have size := all.length_eq
  rw [eq, eq', List.length_append, List.length_append]
  omega

end Corresponds

theorem length_tokens_passed (notEnd : parser.current.kind ≠ .eof) :
    parser.passed.tokens.length + 1 = parser.tokens.length := by
  rw [parser.tokens_of_ne_eof notEnd, List.length_cons]

namespace InTandem

theorem deeper (inTandem : parser.InTandem places rest rest' other) :
    InTandem places rest rest' { parser with depth := parser.depth + 1 }
      { other with depth := other.depth + 1 } :=
  ⟨inTandem.standard, inTandem.corresponds.imp_left fun corresponds =>
    corresponds.restored (congrArg (· + 1) corresponds.depth)⟩

theorem written (inTandem : parser.InTandem places rest rest' other) {entry entry' : LogEntry}
    (same : entry.Matches places entry') :
    InTandem places rest rest' { parser with log := entry :: parser.log }
      { other with log := entry' :: other.log } :=
  ⟨inTandem.standard, inTandem.corresponds.imp_left fun corresponds =>
    ⟨corresponds.rules, corresponds.tokens, corresponds.depth, .cons same corresponds.log⟩⟩

/-- Parsers that correspond later have corresponded all along. -/
theorem corresponds_of_later (inTandem : parser.InTandem places rest rest' other)
    {after : Parser σ} {after' : Parser τ} (h : after.Corresponds places rest rest' after')
    (shorter : after.tokens.length ≤ parser.tokens.length) :
    parser.Corresponds places rest rest' other :=
  inTandem.corresponds.resolve_right fun isPast => h.not_isPast (Nat.le_trans shorter isPast)

end InTandem

end Parser

open ExprCheck.Parser (Corresponds IsPast InTandem)

namespace ParserM

/-- A parser that has passed at least so many tokens more than another and that has at most the rest
to read. -/
structure Lost (rest : List Token) (passes : Nat) (before after : Parser σ) : Prop where
  standard : after.rules = Rules.standard
  shorter : after.tokens.length + passes ≤ before.tokens.length
  isPast : after.IsPast rest

/-- Two steps end with values that agree or with reports that match, and with parsers that still
correspond, or the first of them ends past all that matches, with a value that some value agrees
with. With a value it has passed at least so many tokens. -/
inductive Tandem (places : Correspondence) (rest rest' : List Token) (passes : Nat)
    (agree : α → β → Prop) (step : ParserM σ α) (step' : ParserM τ β) (parser : Parser σ)
    (other : Parser τ) : Prop where
  | ok {value value' after after'} :
      step parser = .ok value after → step' other = .ok value' after' → agree value value' →
      after.rules = Rules.standard → after.Corresponds places rest rest' after' →
      after.tokens.length + passes ≤ parser.tokens.length →
      Tandem places rest rest' passes agree step step' parser other
  | error {diagnostic diagnostic' after after'} :
      step parser = .error diagnostic after → step' other = .error diagnostic' after' →
      diagnostic.Matches places diagnostic' → after.Corresponds places rest rest' after' →
      after.tokens.length ≤ parser.tokens.length →
      Tandem places rest rest' passes agree step step' parser other
  | lost :
      Leads step (fun value after => Lost rest passes parser after ∧ ∃ value', agree value value')
        (fun _ after => after.IsPast rest) parser →
      Tandem places rest rest' passes agree step step' parser other

variable {places : Correspondence} {rest rest' : List Token} {passes : Nat} {agree : α → β → Prop}
  {parser : Parser σ} {other : Parser τ}

/-- Past the matching tokens, only the first of the parsers counts. -/
theorem Tandem.leads_of_isPast {step : ParserM σ α} {step' : ParserM τ β}
    (h : Tandem places rest rest' passes agree step step' parser other)
    (isPast : parser.IsPast rest) :
    Leads step (fun value after => Lost rest passes parser after ∧ ∃ value', agree value value')
      (fun _ after => after.IsPast rest) parser := by
  unfold Leads
  cases h with
  | ok ran _ agrees standard _ shorter =>
    rw [ran]
    exact ⟨⟨standard, shorter, Nat.le_trans (Nat.le_of_add_right_le shorter) isPast⟩, _, agrees⟩
  | error ran _ _ _ shorter =>
    rw [ran]
    exact Nat.le_trans shorter isPast
  | lost leads => exact leads

/-- The tokens that both pass need not count. -/
theorem Tandem.uncounted {step : ParserM σ α} {step' : ParserM τ β}
    (h : Tandem places rest rest' passes agree step step' parser other) :
    Tandem places rest rest' 0 agree step step' parser other := by
  cases h with
  | ok ran ran' agrees standard corresponds shorter =>
    exact .ok ran ran' agrees standard corresponds (Nat.le_of_add_right_le shorter)
  | error ran ran' same corresponds shorter => exact .error ran ran' same corresponds shorter
  | lost leads =>
    refine .lost (leads.mono (fun _ after done => ⟨?_, done.2⟩) fun _ _ isPast => isPast)
    obtain ⟨lost, -⟩ := done
    exact ⟨lost.standard, Nat.le_of_add_right_le lost.shorter, lost.isPast⟩

/-! ### Steps one after the other -/

/-- Two steps one after the other, of which the first passes the tokens that count. -/
theorem Tandem.bind {agree' : α' → β' → Prop} {step : ParserM σ α'} {step' : ParserM τ β'}
    {next : α' → ParserM σ α} {next' : β' → ParserM τ β}
    (h : Tandem places rest rest' passes agree' step step' parser other)
    (goal : ∀ value value' (after : Parser σ) (after' : Parser τ), agree' value value' →
      after.InTandem places rest rest' after' →
      after.tokens.length + passes ≤ parser.tokens.length →
      Tandem places rest rest' 0 agree (next value) (next' value') after after') :
    Tandem places rest rest' passes agree (step >>= next) (step' >>= next') parser other := by
  cases h with
  | error ran ran' same corresponds shorter =>
    exact .error (bind_of_error ran) (bind_of_error ran') same corresponds shorter
  | lost leads =>
    refine .lost (leads_bind.2 (leads.mono (fun value after done => ?_) fun _ _ isPast => isPast))
    obtain ⟨lost, value', agrees⟩ := done
    have inTandem : after.InTandem places rest rest' other := ⟨lost.standard, .inr lost.isPast⟩
    have further :=
      (goal value value' after other agrees inTandem lost.shorter).leads_of_isPast lost.isPast
    refine further.mono (fun _ last done => ⟨?_, done.2⟩) fun _ _ isPast => isPast
    obtain ⟨lost', -⟩ := done
    have shorter := lost.shorter
    have shorter' := lost'.shorter
    exact ⟨lost'.standard, by omega, lost'.isPast⟩
  | @ok value value' after after' ran ran' agrees standard corresponds shorter =>
    cases goal value value' after after' agrees ⟨standard, .inl corresponds⟩ shorter with
    | ok goesOn goesOn' agrees' standard' corresponds' shorter' =>
      exact .ok ((bind_of_ok ran).trans goesOn) ((bind_of_ok ran').trans goesOn') agrees' standard'
        corresponds' (by omega)
    | error goesOn goesOn' same corresponds' shorter' =>
      exact .error ((bind_of_ok ran).trans goesOn) ((bind_of_ok ran').trans goesOn') same
        corresponds' (by omega)
    | lost leads =>
      refine .lost (leads_of_ok ran
        (leads.mono (fun _ last done => ⟨?_, done.2⟩) fun _ _ isPast => isPast))
      obtain ⟨lost, -⟩ := done
      have shorter' := lost.shorter
      exact ⟨lost.standard, by omega, lost.isPast⟩

/-- Steps that do what two others do once both parsers have moved without passing a token. -/
theorem Tandem.of_moved {step moved : ParserM σ α} {step' moved' : ParserM τ β} {after : Parser σ}
    {after' : Parser τ} (inTandem : parser.InTandem places rest rest' other)
    (ran : step parser = moved after)
    (ran' : parser.Corresponds places rest rest' other → step' other = moved' after')
    (same : after.tokens = parser.tokens)
    (h : Tandem places rest rest' passes agree moved moved' after after') :
    Tandem places rest rest' passes agree step step' parser other := by
  have lost : Leads moved
      (fun value last => Lost rest passes after last ∧ ∃ value', agree value value')
      (fun _ last => last.IsPast rest) after →
      Tandem places rest rest' passes agree step step' parser other := by
    intro leads
    have leads : Leads moved
        (fun value last => Lost rest passes parser last ∧ ∃ value', agree value value')
        (fun _ last => last.IsPast rest) after :=
      leads.mono (fun _ _ done => ⟨⟨done.1.standard, same ▸ done.1.shorter, done.1.isPast⟩, done.2⟩)
        fun _ _ isPast => isPast
    refine .lost ?_
    unfold Leads at leads ⊢
    rwa [ran]
  rcases inTandem.corresponds with corresponds | isPast
  · have ran' := ran' corresponds
    cases h with
    | ok goesOn goesOn' agrees standard corresponds' shorter =>
      exact .ok (ran.trans goesOn) (ran'.trans goesOn') agrees standard corresponds'
        (same ▸ shorter)
    | error goesOn goesOn' matching corresponds' shorter =>
      exact .error (ran.trans goesOn) (ran'.trans goesOn') matching corresponds' (same ▸ shorter)
    | lost leads => exact lost leads
  · have isPast' : after.IsPast rest := by rwa [IsPast, same]
    exact lost (h.leads_of_isPast isPast')

/-- Looking at the current token shows tokens that match. -/
theorem Tandem.current_bind {next : Token → ParserM σ α} {next' : Token → ParserM τ β}
    (inTandem : parser.InTandem places rest rest' other)
    (h : ∀ token', parser.current.Matches places token' →
      Tandem places rest rest' passes agree (next parser.current) (next' token') parser other) :
    Tandem places rest rest' passes agree (current >>= next) (current >>= next') parser other := by
  rcases inTandem.corresponds with corresponds | isPast
  · refine .of_moved inTandem ?_ (fun _ => ?_) rfl (h other.current corresponds.current) <;> rfl
  · obtain ⟨token', same⟩ := parser.current.exists_matches places
    refine .of_moved inTandem ?_ (fun corresponds => ?_) rfl (h token' same)
    · rfl
    · exact absurd isPast corresponds.not_isPast

/-- Looking at the rules shows the standard ones to both. -/
theorem Tandem.rules_bind {next : Rules → ParserM σ α} {next' : Rules → ParserM τ β}
    (inTandem : parser.InTandem places rest rest' other)
    (h : Tandem places rest rest' passes agree (next Rules.standard) (next' Rules.standard) parser
      other) :
    Tandem places rest rest' passes agree (rules >>= next) (rules >>= next') parser other := by
  refine .of_moved inTandem ?_ (fun corresponds => ?_) rfl h
  · rw [← inTandem.standard]
    rfl
  · rw [← inTandem.standard, ← corresponds.rules]
    rfl

theorem Tandem.write_bind {next : Unit → ParserM σ α} {next' : Unit → ParserM τ β}
    {entry entry' : LogEntry} (inTandem : parser.InTandem places rest rest' other)
    (h : Tandem places rest rest' passes agree (next ()) (next' ())
      { parser with log := entry :: parser.log } { other with log := entry' :: other.log }) :
    Tandem places rest rest' passes agree (write entry >>= next) (write entry' >>= next') parser
      other := by
  refine .of_moved inTandem ?_ (fun _ => ?_) ?_ h <;> rfl

/-- Both fail with reports that match, where they are. -/
theorem Tandem.refuse {step : ParserM σ α} {step' : ParserM τ β} {diagnostic : Diagnostic}
    (inTandem : parser.InTandem places rest rest' other)
    (ran : step parser = .error diagnostic parser)
    (ran' : parser.Corresponds places rest rest' other →
      ∃ diagnostic', step' other = .error diagnostic' other ∧
        diagnostic.Matches places diagnostic') :
    Tandem places rest rest' passes agree step step' parser other := by
  rcases inTandem.corresponds with corresponds | isPast
  · obtain ⟨_, ran', same⟩ := ran' corresponds
    exact .error ran ran' same corresponds (Nat.le_refl _)
  · refine .lost ?_
    unfold Leads
    rwa [ran]

/-- Both go deeper, or neither does. -/
theorem Tandem.descend_bind {next : Unit → ParserM σ α} {next' : Unit → ParserM τ β}
    (inTandem : parser.InTandem places rest rest' other)
    (h : Tandem places rest rest' passes agree (next ()) (next' ())
      { parser with depth := parser.depth + 1 } { other with depth := other.depth + 1 }) :
    Tandem places rest rest' passes agree (descend >>= next) (descend >>= next') parser other := by
  by_cases deep : maxNestingDepth ≤ parser.depth
  · refine .refuse inTandem (bind_of_error (if_pos deep)) fun corresponds => ?_
    exact ⟨_, bind_of_error (if_pos (corresponds.depth ▸ deep)), corresponds.current.tooDeep⟩
  · refine .of_moved inTandem (bind_of_ok (if_neg deep)) (fun corresponds => bind_of_ok ?_) rfl h
    exact if_neg (corresponds.depth ▸ deep)

/-! ### Basic steps -/

theorem pure_tandem (inTandem : parser.InTandem places rest rest' other) {value : α} {value' : β}
    (agrees : agree value value') :
    Tandem places rest rest' 0 agree (pure value) (pure value') parser other := by
  rcases inTandem.corresponds with corresponds | isPast
  · exact .ok rfl rfl agrees inTandem.standard corresponds (Nat.le_refl _)
  · exact .lost ⟨⟨inTandem.standard, Nat.le_refl _, isPast⟩, value', agrees⟩

theorem throw_tandem (inTandem : parser.InTandem places rest rest' other)
    {diagnostic diagnostic' : Diagnostic} (same : diagnostic.Matches places diagnostic') :
    Tandem places rest rest' passes agree (throw diagnostic) (throw diagnostic') parser other :=
  .refuse inTandem rfl fun _ => ⟨_, rfl, same⟩

theorem refuseDepth_tandem (inTandem : parser.InTandem places rest rest' other) :
    Tandem places rest rest' passes agree refuseDepth refuseDepth parser other :=
  .refuse inTandem rfl fun corresponds => ⟨_, rfl, corresponds.current.tooDeep⟩

theorem advance_tandem (inTandem : parser.InTandem places rest rest' other)
    (notEnd : parser.current.kind ≠ .eof) :
    Tandem places rest rest' 1 (Token.Matches places) advance advance parser other := by
  have shorter := Nat.le_of_eq (Parser.length_tokens_passed notEnd)
  have lost (isPast : parser.passed.IsPast rest) :
      Tandem places rest rest' 1 (Token.Matches places) advance advance parser other :=
    .lost ⟨⟨inTandem.standard, shorter, isPast⟩, parser.current.exists_matches places⟩
  rcases inTandem.corresponds with corresponds | isPast
  · rcases corresponds.passed notEnd with corresponds' | isPast
    · exact .ok rfl rfl corresponds.current inTandem.standard corresponds' shorter
    · exact lost isPast
  · exact lost (Nat.le_trans (Nat.le_of_succ_le shorter) isPast)

theorem expect_tandem (inTandem : parser.InTandem places rest rest' other) {expected : TokenKind}
    (notEnd : expected ≠ .eof) :
    Tandem places rest rest' 1 (Token.Matches places) (expect expected) (expect expected) parser
      other := by
  by_cases found : parser.current.kind = expected
  · refine .of_moved inTandem (if_pos found) (fun corresponds => ?_) rfl
      (advance_tandem inTandem (found ▸ notEnd))
    exact if_pos (corresponds.current.kind.trans found)
  · refine .refuse inTandem (if_neg found) fun corresponds => ?_
    exact ⟨_, if_neg (corresponds.current.kind ▸ found), corresponds.current.insteadOf expected⟩

theorem restoringDepth_tandem {step : ParserM σ α} {step' : ParserM τ β}
    (inTandem : parser.InTandem places rest rest' other)
    (h : Tandem places rest rest' passes agree step step' parser other) :
    Tandem places rest rest' passes agree (restoringDepth step) (restoringDepth step') parser
      other := by
  have lost : Leads step
      (fun value after => Lost rest passes parser after ∧ ∃ value', agree value value')
      (fun _ after => after.IsPast rest) parser →
      Tandem places rest rest' passes agree (restoringDepth step) (restoringDepth step') parser
        other :=
    fun leads => .lost <| leads_restoringDepth.2 <| leads.mono
      (fun _ _ done => ⟨⟨done.1.standard, done.1.shorter, done.1.isPast⟩, done.2⟩)
      fun _ _ isPast => isPast
  rcases inTandem.corresponds with corresponds | isPast
  · have depth := corresponds.depth
    cases h with
    | ok ran ran' agrees standard corresponds' shorter =>
      exact .ok (restoringDepth_of_ok ran) (restoringDepth_of_ok ran') agrees standard
        (corresponds'.restored depth) shorter
    | error ran ran' same corresponds' shorter =>
      exact .error (restoringDepth_of_error ran) (restoringDepth_of_error ran') same
        (corresponds'.restored depth) shorter
    | lost leads => exact lost leads
  · exact lost (h.leads_of_isPast isPast)

/-! ### Rows -/

/-- Two readers of expressions that read trees that match from parsers in tandem. -/
def AllTandem (places : Correspondence) (rest rest' : List Token)
    (nested : BindingPower → ParserM σ Expr) (nested' : BindingPower → ParserM τ Expr) : Prop :=
  ∀ power (parser : Parser σ) (other : Parser τ), parser.InTandem places rest rest' other →
    Tandem places rest rest' 1 (Tree.Matches places) (nested power) (nested' power) parser other

variable {nested : BindingPower → ParserM σ Expr} {nested' : BindingPower → ParserM τ Expr}

/-- Where a row ends, no round of it is needed. -/
theorem itemsUntil_of_ends {closing : TokenKind}
    (ends : parser.current.kind = closing ∨ parser.current.kind = .eof) (rounds : Nat) :
    itemsUntil nested closing rounds parser = .ok [] parser := by
  cases rounds with
  | zero => rfl
  | succ rounds =>
    rw [itemsUntil]
    refine (bind_of_ok (rfl : current parser = .ok parser.current parser)).trans ?_
    rw [if_pos ends]
    rfl

theorem itemsUntil_tandem_of_ends {closing : TokenKind} {rounds rounds' : Nat}
    (inTandem : parser.InTandem places rest rest' other)
    (ends : parser.current.kind = closing ∨ parser.current.kind = .eof) :
    Tandem places rest rest' 0 (List.Forall₂ (Tree.Matches places))
      (itemsUntil nested closing rounds) (itemsUntil nested' closing rounds') parser other := by
  refine .of_moved inTandem (itemsUntil_of_ends ends rounds) (fun corresponds => ?_) rfl
    (pure_tandem inTandem .nil)
  exact itemsUntil_of_ends (corresponds.current.kind ▸ ends) rounds'

theorem itemsUntil_tandem (tandem : AllTandem places rest rest' nested nested')
    (inTandem : parser.InTandem places rest rest' other) (closing : TokenKind)
    {rounds rounds' : Nat} (enough : parser.tokens.length ≤ rounds + 1)
    (enough' : parser.Corresponds places rest rest' other → other.tokens.length ≤ rounds' + 1) :
    Tandem places rest rest' 0 (List.Forall₂ (Tree.Matches places))
      (itemsUntil nested closing rounds) (itemsUntil nested' closing rounds') parser other := by
  induction rounds generalizing parser other rounds' with
  | zero =>
    have ends : parser.current.kind = closing ∨ parser.current.kind = .eof :=
      .inr (parser.kind_eq_eof_of_length_le_one enough)
    exact itemsUntil_tandem_of_ends inTandem ends
  | succ rounds ih =>
    by_cases ends : parser.current.kind = closing ∨ parser.current.kind = .eof
    · exact itemsUntil_tandem_of_ends inTandem ends
    · have notEnd : parser.current.kind ≠ .eof := (not_or.1 ends).2
      have another : ∀ rounds',
          (parser.Corresponds places rest rest' other → other.tokens.length ≤ rounds' + 2) →
          Tandem places rest rest' 0 (List.Forall₂ (Tree.Matches places))
            (itemsUntil nested closing (rounds + 1)) (itemsUntil nested' closing (rounds' + 1))
            parser other := by
        intro rounds' enough'
        simp only [itemsUntil]
        refine .current_bind inTandem fun token' same => ?_
        have ends' : ¬ (token'.kind = closing ∨ token'.kind = .eof) := same.kind ▸ ends
        simp only [if_neg ends, if_neg ends']
        refine ((tandem .lowest parser other inTandem).bind
          fun item item' after after' sameItem inTandem' shorter => ?_).uncounted
        refine (ih inTandem' (by omega) fun corresponds' => ?_).bind
          fun items items' _ _ sameItems inTandem _ =>
            pure_tandem inTandem (.cons sameItem sameItems)
        have corresponds := inTandem.corresponds_of_later corresponds' (by omega)
        have size := corresponds.length_eq
        have size' := corresponds'.length_eq
        have := enough' corresponds
        omega
      rcases inTandem.corresponds with corresponds | isPast
      · have enough' := enough' corresponds
        have more := other.passed.length_tokens_pos
        have size := Parser.length_tokens_passed (show other.current.kind ≠ .eof by
          rw [corresponds.current.kind]
          exact notEnd)
        obtain ⟨fewer, rfl⟩ : ∃ fewer, rounds' = fewer + 1 := ⟨rounds' - 1, by omega⟩
        exact another fewer fun _ => enough'
      · -- Past the matching tokens it does not matter how often the other parser may go round.
        have rounds := another other.tokens.length fun _ => Nat.le_add_right _ 2
        exact .lost (rounds.leads_of_isPast isPast)

/-- The rounds that two parsers in tandem allow a row need not be the same. -/
theorem withRemaining_itemsUntil_tandem (tandem : AllTandem places rest rest' nested nested')
    (inTandem : parser.InTandem places rest rest' other) (closing : TokenKind) :
    Tandem places rest rest' 0 (List.Forall₂ (Tree.Matches places))
      (withRemaining (itemsUntil nested closing)) (withRemaining (itemsUntil nested' closing))
      parser other := by
  refine .of_moved inTandem ?_ (fun _ => ?_) ?_ (itemsUntil_tandem tandem inTandem closing
    (length_tokens_le_remaining parser) fun _ => length_tokens_le_remaining other) <;> rfl

/-! ### Operands -/

theorem literal_tandem (inTandem : parser.InTandem places rest rest' other)
    (notEnd : parser.current.kind ≠ .eof) :
    Tandem places rest rest' 1 (Tree.Matches places) literal literal parser other := by
  simp only [literal]
  refine .current_bind inTandem fun token' same => ?_
  rw [same.kind]
  by_cases isLiteral : parser.current.kind.isLiteral
  · simp only [if_pos isLiteral]
    exact (advance_tandem inTandem notEnd).bind fun token token' _ _ same inTandem _ =>
      pure_tandem inTandem (.literal same)
  · simp only [if_neg isLiteral]
    exact throw_tandem inTandem same.unexpected

theorem sign_tandem (tandem : AllTandem places rest rest' nested nested')
    (inTandem : parser.InTandem places rest rest' other) (notEnd : parser.current.kind ≠ .eof) :
    Tandem places rest rest' 1 (Tree.Matches places) (sign nested) (sign nested') parser other := by
  simp only [sign]
  refine .rules_bind inTandem ?_
  refine (advance_tandem inTandem notEnd).bind
    fun operator operator' after after' sameOperator inTandem _ => ?_
  rw [sameOperator.kind]
  refine ((tandem _ after after' inTandem).bind
    fun operand operand' _ _ sameOperand inTandem _ => ?_).uncounted
  exact pure_tandem inTandem
    (.unary sameOperator sameOperand ⟨sameOperator.span.start, sameOperand.span.stop⟩)

theorem group_tandem (tandem : AllTandem places rest rest' nested nested')
    (inTandem : parser.InTandem places rest rest' other) (notEnd : parser.current.kind ≠ .eof) :
    Tandem places rest rest' 1 (Tree.Matches places) (group nested) (group nested') parser
      other := by
  simp only [group]
  refine (advance_tandem inTandem notEnd).bind fun _ _ after after' _ inTandem _ => ?_
  refine ((tandem _ after after' inTandem).bind
    fun inner inner' _ _ sameInner inTandem _ => ?_).uncounted
  refine ((expect_tandem inTandem (by decide)).bind fun _ _ _ _ _ inTandem _ => ?_).uncounted
  exact pure_tandem inTandem sameInner

theorem block_tandem (tandem : AllTandem places rest rest' nested nested')
    (inTandem : parser.InTandem places rest rest' other) :
    Tandem places rest rest' 1 (Tree.Matches places) (block nested) (block nested') parser
      other := by
  simp only [block]
  refine (expect_tandem inTandem (by decide)).bind
    fun opening opening' after after' sameOpening inTandem _ => ?_
  refine (withRemaining_itemsUntil_tandem tandem inTandem _).bind
    fun items items' _ _ sameItems inTandem _ => ?_
  refine ((expect_tandem inTandem (by decide)).bind
    fun closing closing' _ _ sameClosing inTandem _ => ?_).uncounted
  exact pure_tandem inTandem
    (.block sameItems ⟨sameOpening.span.start, sameClosing.span.stop⟩)

theorem branchWithin_tandem (tandem : AllTandem places rest rest' nested nested')
    (inTandem : parser.InTandem places rest rest' other) (rounds : Nat)
    (notEnd : parser.current.kind ≠ .eof) :
    Tandem places rest rest' 1 (Tree.Matches places) (branchWithin nested rounds)
      (branchWithin nested' rounds) parser other := by
  induction rounds generalizing parser other with
  | zero => exact refuseDepth_tandem inTandem
  | succ rounds ih =>
    simp only [branchWithin]
    refine (advance_tandem inTandem notEnd).bind
      fun word word' start start' sameWord inTandem _ => ?_
    refine ((tandem _ start start' inTandem).bind
      fun condition condition' middle middle' sameCondition inTandem _ => ?_).uncounted
    refine ((block_tandem tandem inTandem).bind
      fun body body' after after' sameBody inTandem _ => ?_).uncounted
    refine .current_bind inTandem fun token' same => ?_
    rw [same.kind]
    generalize next : after.current.kind = kind
    split
    · refine .descend_bind inTandem ?_
      have notEnd' : after.current.kind ≠ .eof := by rw [next]; decide
      refine ((ih inTandem.deeper notEnd').bind
        fun otherwise otherwise' _ _ sameOtherwise inTandem _ => ?_).uncounted
      exact pure_tandem inTandem (.ifElse sameCondition sameBody sameOtherwise
        ⟨sameWord.span.start, sameOtherwise.span.stop⟩)
    · have notEnd' : after.current.kind ≠ .eof := by rw [next]; decide
      refine ((advance_tandem inTandem notEnd').bind
        fun _ _ last last' _ inTandem _ => ?_).uncounted
      refine ((block_tandem tandem inTandem).bind
        fun otherwise otherwise' _ _ sameOtherwise inTandem _ => ?_).uncounted
      exact pure_tandem inTandem (.ifElse sameCondition sameBody sameOtherwise
        ⟨sameWord.span.start, sameOtherwise.span.stop⟩)
    · exact pure_tandem inTandem
        (.ifThen sameCondition sameBody ⟨sameWord.span.start, sameBody.span.stop⟩)

theorem operand_tandem (tandem : AllTandem places rest rest' nested nested')
    (inTandem : parser.InTandem places rest rest' other) (rule : PrefixRule)
    (notEnd : parser.current.kind ≠ .eof) :
    Tandem places rest rest' 1 (Tree.Matches places) (operand nested rule) (operand nested' rule)
      parser other := by
  cases rule with
  | literal => exact literal_tandem inTandem notEnd
  | sign => exact sign_tandem tandem inTandem notEnd
  | group => exact group_tandem tandem inTandem notEnd
  | block => exact block_tandem tandem inTandem
  | branch => exact branchWithin_tandem tandem inTandem levels notEnd
  | misplaced =>
    exact .current_bind inTandem fun _ same => throw_tandem inTandem same.misplaced

/-! ### Operators and expressions -/

theorem application_tandem (tandem : AllTandem places rest rest' nested nested')
    (inTandem : parser.InTandem places rest rest' other) (rule : InfixRule) {left left' : Expr}
    (sameLeft : left.Matches places left') (notEnd : parser.current.kind ≠ .eof) :
    Tandem places rest rest' 1 (Tree.Matches places) (application nested rule left)
      (application nested' rule left') parser other := by
  simp only [application]
  refine (advance_tandem inTandem notEnd).bind
    fun operator operator' after after' sameOperator inTandem _ => ?_
  refine ((tandem _ after after' inTandem).bind
    fun right right' _ _ sameRight inTandem _ => ?_).uncounted
  exact pure_tandem inTandem
    (.binary sameLeft sameOperator sameRight ⟨sameLeft.span.start, sameRight.span.stop⟩)

theorem extend_tandem (tandem : AllTandem places rest rest' nested nested')
    (inTandem : parser.InTandem places rest rest' other) (power : BindingPower) (rounds : Nat)
    {left left' : Expr} (sameLeft : left.Matches places left') :
    Tandem places rest rest' 0 (Tree.Matches places) (extend nested power rounds left)
      (extend nested' power rounds left') parser other := by
  induction rounds generalizing parser other left left' with
  | zero => exact refuseDepth_tandem inTandem
  | succ rounds ih =>
    simp only [extend]
    refine .rules_bind inTandem (.current_bind inTandem fun token' same => ?_)
    rw [same.kind]
    cases found : Rules.standard.infixRule? parser.current.kind with
    | none => exact pure_tandem inTandem sameLeft
    | some rule =>
      by_cases tighter : power < rule.power
      · simp only [if_pos tighter]
        refine .descend_bind inTandem ?_
        have notEnd := ne_eof_of_infixRule found
        refine ((application_tandem tandem inTandem.deeper rule sameLeft notEnd).bind
          fun left left' _ _ sameLeft inTandem _ => ?_).uncounted
        exact ih inTandem sameLeft
      · simp only [if_neg tighter]
        exact pure_tandem inTandem sameLeft

theorem chain_tandem (tandem : AllTandem places rest rest' nested nested')
    (inTandem : parser.InTandem places rest rest' other) (power : BindingPower) :
    Tandem places rest rest' 1 (Tree.Matches places) (chain nested power) (chain nested' power)
      parser other := by
  simp only [chain]
  refine .rules_bind inTandem (.current_bind inTandem fun token' same => ?_)
  rw [same.kind]
  cases found : Rules.standard.prefixRule? parser.current.kind with
  | none => exact throw_tandem inTandem same.unexpected
  | some rule =>
    have deeper := inTandem.deeper
    refine .descend_bind inTandem (.write_bind deeper ?_)
    have logged : (LogEntry.operand parser.current.kind parser.current.start.offset).Matches places
        (.operand parser.current.kind token'.start.offset) := .operand same.span.start
    have written := deeper.written logged
    have notEnd := ne_eof_of_prefixRule found
    exact (operand_tandem tandem written rule notEnd).bind
      fun left left' _ _ sameLeft inTandem _ => extend_tandem tandem inTandem power levels sameLeft

theorem expressionWithin_tandem (rounds : Nat) :
    AllTandem (σ := σ) (τ := τ) places rest rest' (expressionWithin rounds)
      (expressionWithin rounds) := by
  induction rounds with
  | zero => exact fun _ _ _ inTandem => refuseDepth_tandem inTandem
  | succ rounds ih =>
    exact fun power _ _ inTandem => restoringDepth_tandem inTandem (chain_tandem ih inTandem power)

/-! ### Whole sources -/

theorem program_tandem (inTandem : parser.InTandem places rest rest' other) :
    Tandem places rest rest' 0 (Expr.ProgramMatches places) program program parser other := by
  simp only [program]
  refine .current_bind inTandem fun first' sameFirst => ?_
  refine (withRemaining_itemsUntil_tandem (expressionWithin_tandem levels) inTandem _).bind
    fun items items' after after' sameItems inTandem _ => ?_
  refine .write_bind inTandem ?_
  rw [← sameItems.length_eq]
  have written := inTandem.written (.program items.length)
  exact .current_bind written fun last' sameLast =>
    pure_tandem written (.of_tokens sameItems sameFirst sameLast)

theorem soleExpression_tandem (inTandem : parser.InTandem places rest rest' other) :
    Tandem places rest rest' 0 (Tree.Matches places) soleExpression soleExpression parser
      other := by
  simp only [soleExpression]
  refine ((expressionWithin_tandem levels .lowest parser other inTandem).bind
    fun expr expr' after after' sameExpr inTandem _ => ?_).uncounted
  refine .current_bind inTandem fun token' same => ?_
  rw [same.kind]
  by_cases isEnd : after.current.kind = .eof
  · simp only [if_pos isEnd]
    exact pure_tandem inTandem sameExpr
  · simp only [if_neg isEnd]
    exact throw_tandem inTandem same.trailing

end ParserM

end ExprCheck
