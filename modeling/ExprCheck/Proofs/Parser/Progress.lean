import ExprCheck.Proofs.Parser.Depth

/-!
# How far a step gets

Whatever the rules and the depth are, a step that succeeds has passed some tokens, and a step that
fails has passed those before the one that it reports:

* `TokenSource.Walk passed source last`: the way of a source over some tokens.
* `Parser.Passes endToo least before after`: a parser has passed at least so many tokens, and the
  end of the input is among them only if that is allowed.
* `ParserM.Gets endToo least step parser`: a step passes at least so many tokens if it succeeds, and
  it reports the token that it got to if it fails. One law for each way of putting steps together
  and one lemma for each rule of the parser.
* `Parser.stops_at_fault`: what can be done with a parser from outside fails at the current token,
  and each expression takes a token.

A rule that is called from outside may find the end of the input in the place of its own token, and
a rule can be given to the end of the input. Only then is the end of the input passed.
-/

namespace ExprCheck

namespace TokenSource

variable {σ : Type} [TokenSource σ]

/-- The way from a source over some tokens to a later one. -/
inductive Walk : List Token → σ → σ → Prop where
  | stay (source : σ) : Walk [] source source
  | pass {passed : List Token} {source last : σ} :
      Walk passed (advance source) last → Walk (current source :: passed) source last

namespace Walk

variable {passed later : List Token} {source middle last : σ}

theorem trans (h : Walk passed source middle) (h' : Walk later middle last) :
    Walk (passed ++ later) source last := by
  induction h with
  | stay => exact h'
  | pass _ ih => exact .pass (ih h')

/-- No way makes a source longer. -/
theorem remaining_le (h : Walk passed source last) : remaining last ≤ remaining source := by
  induction h with
  | stay => exact Nat.le_refl _
  | pass _ ih => exact Nat.le_trans ih (remaining_advance_le _)

/-- A way from before the end of the input makes it shorter, if it passes a token. -/
theorem remaining_lt (h : Walk passed source last) (notNil : passed ≠ [])
    (notEnd : (current source).kind ≠ .eof) : remaining last < remaining source := by
  cases h with
  | stay => exact absurd rfl notNil
  | pass later => exact Nat.lt_of_le_of_lt later.remaining_le (remaining_advance_lt source notEnd)

/-- What is passed before the end of the input is the beginning of the tokens. -/
theorem tokens_eq (h : Walk passed source last) (notEnd : ∀ token ∈ passed, token.kind ≠ .eof) :
    tokens source = passed ++ tokens last := by
  induction h with
  | stay => rfl
  | pass _ ih =>
    obtain ⟨first, later⟩ := List.forall_mem_cons.1 notEnd
    rw [tokens_of_ne_eof first, ih later, List.cons_append]

end Walk

end TokenSource

open TokenSource (Walk)

variable {σ α β : Type} [TokenSource σ]

/-- Whether a parser that keeps to the rules may pass the end of the input. -/
def Rules.Allow (endToo : Prop) (rules : Rules) : Prop :=
  (rules.prefixRule? .eof).isSome ∨ (rules.infixRule? .eof).isSome → endToo

theorem Rules.Allow.of_prefixRule {endToo : Prop} {rules : Rules} (h : rules.Allow endToo)
    {kind : TokenKind} {rule : PrefixRule} (found : rules.prefixRule? kind = some rule) :
    kind = .eof → endToo := by
  rintro rfl
  exact h (.inl (Option.isSome_of_eq_some found))

theorem Rules.Allow.of_infixRule {endToo : Prop} {rules : Rules} (h : rules.Allow endToo)
    {kind : TokenKind} {rule : InfixRule} (found : rules.infixRule? kind = some rule) :
    kind = .eof → endToo := by
  rintro rfl
  exact h (.inr (Option.isSome_of_eq_some found))

/-- A parser has kept its rules and passed at least so many tokens. -/
structure Parser.Passes (endToo : Prop) (least : Nat) (before after : Parser σ) : Prop where
  rules : after.rules = before.rules
  walk : ∃ passed, least ≤ passed.length ∧ (∀ token ∈ passed, token.kind = .eof → endToo) ∧
    Walk passed before.source after.source

namespace Parser.Passes

variable {endToo : Prop} {least more : Nat} {parser before middle after : Parser σ}

/-- A parser that is still where it was, whatever its depth and its log are. -/
theorem still (rules : after.rules = before.rules) (source : after.source = before.source) :
    before.Passes endToo 0 after :=
  ⟨rules, [], Nat.le_refl _, List.forall_mem_nil _, source ▸ .stay _⟩

theorem weaken (h : before.Passes endToo least after) : before.Passes endToo 0 after :=
  ⟨h.rules, h.walk.imp fun _ passed => ⟨Nat.zero_le _, passed.2⟩⟩

theorem trans (h : before.Passes endToo least middle) (h' : middle.Passes endToo more after) :
    before.Passes endToo (least + more) after := by
  obtain ⟨passed, enough, allowed, walk⟩ := h.walk
  obtain ⟨later, enough', allowed', walk'⟩ := h'.walk
  refine ⟨h'.rules.trans h.rules, passed ++ later, ?_, ?_, walk.trans walk'⟩
  · rw [List.length_append]
    exact Nat.add_le_add enough enough'
  · exact List.forall_mem_append.2 ⟨allowed, allowed'⟩

theorem token (allowed : parser.current.kind = .eof → endToo) :
    parser.Passes endToo 1 parser.passed :=
  ⟨rfl, [parser.current], Nat.le_refl _, List.forall_mem_singleton.2 allowed, .pass (.stay _)⟩

end Parser.Passes

namespace ParserM

/-- With what was passed since `before`, a step has passed at least so many tokens behind it, or it
fails at the token that it reports. -/
def GetsFrom (endToo : Prop) (least : Nat) (before : Parser σ) (step : ParserM σ α)
    (parser : Parser σ) : Prop :=
  Leads step (fun _ after => before.Passes endToo least after)
    (fun diagnostic after =>
      before.Passes endToo 0 after ∧ diagnostic.position = after.current.start) parser

/-- A step that passes at least so many tokens, or fails at the token that it reports. -/
def Gets (endToo : Prop) (least : Nat) (step : ParserM σ α) (parser : Parser σ) : Prop :=
  GetsFrom endToo least parser step parser

/-- A reader of expressions that passes a token with each of them. -/
def Advances (endToo : Prop) (nested : BindingPower → ParserM σ Expr) : Prop :=
  ∀ power parser, parser.rules.Allow endToo → Gets endToo 1 (nested power) parser

variable {endToo : Prop} {least more : Nat} {parser : Parser σ} {step : ParserM σ α}
  {next : α → ParserM σ β}

/-! ### Putting steps together -/

namespace Gets

theorem pure (value : α) : Gets endToo 0 (Pure.pure value) parser :=
  .still rfl rfl

theorem throw {diagnostic : Diagnostic} (h : diagnostic.position = parser.current.start) :
    Gets (α := α) endToo least (MonadExcept.throw diagnostic) parser :=
  ⟨.still rfl rfl, h⟩

theorem refuseDepth : Gets (α := α) endToo least refuseDepth parser :=
  ⟨.still rfl rfl, rfl⟩

theorem weaken (h : Gets endToo least step parser) : Gets endToo 0 step parser :=
  Leads.mono h (fun _ _ passes => passes.weaken) fun _ _ refused => refused

/-- A step behind others passes what they passed and what it passes itself. -/
theorem after {middle : Parser σ} (h : Gets endToo more step middle)
    (passes : parser.Passes endToo least middle) :
    GetsFrom endToo (least + more) parser step middle :=
  Leads.mono h (fun _ _ passes' => passes.trans passes') fun _ _ refused =>
    ⟨passes.weaken.trans refused.1, refused.2⟩

/-- What is put behind a step can only pass more. -/
theorem bind (h : Gets endToo least step parser)
    (h' : ∀ value after, parser.Passes endToo least after → Gets endToo 0 (next value) after) :
    Gets endToo least (step >>= next) parser := by
  rw [Gets, GetsFrom, leads_bind]
  exact Leads.mono h (fun value after passes => (h' value after passes).after passes)
    fun _ _ refused => refused

theorem current_bind {next : Token → ParserM σ β}
    (h : Gets endToo least (next parser.current) parser) :
    Gets endToo least (current >>= next) parser :=
  h

theorem rules_bind {next : Rules → ParserM σ β}
    (h : Gets endToo least (next parser.rules) parser) :
    Gets endToo least (rules >>= next) parser :=
  h

theorem write_bind {entry : LogEntry} {next : Unit → ParserM σ β}
    (h : Gets endToo least (next ()) { parser with log := entry :: parser.log }) :
    Gets endToo least (write entry >>= next) parser := by
  rw [Gets, GetsFrom, leads_bind, leads_write, ← Nat.zero_add least]
  exact h.after (.still rfl rfl)

theorem descend_bind {next : Unit → ParserM σ β}
    (h : Gets endToo least (next ()) { parser with depth := parser.depth + 1 }) :
    Gets endToo least (descend >>= next) parser := by
  rw [Gets, GetsFrom, leads_bind, leads_descend, ← Nat.zero_add least]
  exact ⟨fun _ => h.after (.still rfl rfl), fun _ => ⟨.still rfl rfl, rfl⟩⟩

theorem advance (allowed : parser.current.kind = .eof → endToo) :
    Gets endToo 1 advance parser :=
  .token allowed

theorem expect {expected : TokenKind} (allowed : expected = .eof → endToo) :
    Gets endToo 1 (expect expected) parser := by
  rw [Gets, GetsFrom, leads_expect]
  exact ⟨fun found => .token fun isEnd => allowed (found.symm.trans isEnd),
    fun _ => ⟨.still rfl rfl, rfl⟩⟩

theorem withRemaining {step : Nat → ParserM σ α}
    (h : Gets endToo least (step (TokenSource.remaining parser.source)) parser) :
    Gets endToo least (withRemaining step) parser :=
  h

theorem restoringDepth (h : Gets endToo least step parser) :
    Gets endToo least (restoringDepth step) parser := by
  rw [Gets, GetsFrom, leads_restoringDepth]
  exact Leads.mono h (fun _ _ passes => ⟨passes.rules, passes.walk⟩)
    fun _ _ refused => ⟨⟨refused.1.rules, refused.1.walk⟩, refused.2⟩

theorem descend (parser : Parser σ) : Gets endToo 0 descend parser := by
  rw [Gets, GetsFrom, leads_descend]
  exact ⟨fun _ => .still rfl rfl, fun _ => ⟨.still rfl rfl, rfl⟩⟩

end Gets

variable {nested : BindingPower → ParserM σ Expr}

/-! ### Operands -/

theorem literal_gets (parser : Parser σ) : Gets endToo 1 literal parser := by
  refine .current_bind ?_
  split
  · next isLiteral =>
    refine (Gets.advance fun isEnd => ?_).bind fun _ _ _ => .pure _
    rw [isEnd] at isLiteral
    cases isLiteral
  · exact .throw rfl

theorem sign_gets (inner : Advances endToo nested) (allow : parser.rules.Allow endToo)
    (allowed : parser.current.kind = .eof → endToo) : Gets endToo 1 (sign nested) parser := by
  refine .rules_bind ((Gets.advance allowed).bind fun _ after passes => ?_)
  exact (inner _ after (passes.rules ▸ allow)).weaken.bind fun _ _ _ => .pure _

theorem group_gets (inner : Advances endToo nested) (allow : parser.rules.Allow endToo)
    (allowed : parser.current.kind = .eof → endToo) : Gets endToo 1 (group nested) parser := by
  refine (Gets.advance allowed).bind fun _ after passes => ?_
  refine (inner .lowest after (passes.rules ▸ allow)).weaken.bind fun _ _ _ => ?_
  exact (Gets.expect nofun).weaken.bind fun _ _ _ => .pure _

theorem itemsUntil_gets (inner : Advances endToo nested) (allow : parser.rules.Allow endToo)
    (closing : TokenKind) (rounds : Nat) :
    Gets endToo 0 (itemsUntil nested closing rounds) parser := by
  induction rounds generalizing parser with
  | zero => exact .pure _
  | succ rounds ih =>
    refine .current_bind ?_
    split
    · exact .pure _
    · refine (inner .lowest parser allow).weaken.bind fun _ after passes => ?_
      exact (ih (passes.rules ▸ allow)).bind fun _ _ _ => .pure _

theorem block_gets (inner : Advances endToo nested) (allow : parser.rules.Allow endToo) :
    Gets endToo 1 (block nested) parser := by
  refine (Gets.expect nofun).bind fun _ after passes => ?_
  refine (Gets.withRemaining (itemsUntil_gets inner (passes.rules ▸ allow) _ _)).bind
    fun _ _ _ => ?_
  exact (Gets.expect nofun).weaken.bind fun _ _ _ => .pure _

theorem branchWithin_gets (inner : Advances endToo nested) (rounds : Nat) (parser : Parser σ)
    (allow : parser.rules.Allow endToo) (allowed : parser.current.kind = .eof → endToo) :
    Gets endToo 1 (branchWithin nested rounds) parser := by
  induction rounds generalizing parser with
  | zero => exact .refuseDepth
  | succ rounds ih =>
    refine (Gets.advance allowed).bind fun _ middle passes => ?_
    have allow := passes.rules ▸ allow
    refine (inner .lowest middle allow).weaken.bind fun _ middle' passes' => ?_
    have allow := passes'.rules ▸ allow
    refine (block_gets inner allow).weaken.bind fun _ last passes'' => ?_
    have allow := passes''.rules ▸ allow
    refine .current_bind ?_
    split
    · next isElsif =>
      let deeper : Parser σ := { last with depth := last.depth + 1 }
      have allowed : deeper.current.kind = .eof → endToo := fun isEnd =>
        absurd (isElsif.symm.trans isEnd) (by decide)
      exact .descend_bind ((ih deeper allow allowed).weaken.bind fun _ _ _ => .pure _)
    · next isElse =>
      have allowed : last.current.kind = .eof → endToo := fun isEnd =>
        absurd (isElse.symm.trans isEnd) (by decide)
      refine (Gets.advance allowed).weaken.bind fun _ _ passes => ?_
      exact (block_gets inner (passes.rules ▸ allow)).weaken.bind fun _ _ _ => .pure _
    · exact .pure _

/-- An operand, read by whatever rule. -/
theorem operand_gets (inner : Advances endToo nested) (allow : parser.rules.Allow endToo)
    (allowed : parser.current.kind = .eof → endToo) (rule : PrefixRule) :
    Gets endToo 1 (operand nested rule) parser := by
  cases rule with
  | literal => exact literal_gets parser
  | sign => exact sign_gets inner allow allowed
  | group => exact group_gets inner allow allowed
  | block => exact block_gets inner allow
  | branch => exact branchWithin_gets inner levels parser allow allowed
  | misplaced => exact .current_bind (.throw rfl)

/-! ### Operators and expressions -/

theorem application_gets (inner : Advances endToo nested) (allow : parser.rules.Allow endToo)
    (allowed : parser.current.kind = .eof → endToo) (rule : InfixRule) (left : Expr) :
    Gets endToo 1 (application nested rule left) parser := by
  refine (Gets.advance allowed).bind fun _ after passes => ?_
  exact (inner _ after (passes.rules ▸ allow)).weaken.bind fun _ _ _ => .pure _

theorem extend_gets (inner : Advances endToo nested) (power : BindingPower) (rounds : Nat)
    (parser : Parser σ) (allow : parser.rules.Allow endToo) (left : Expr) :
    Gets endToo 0 (extend nested power rounds left) parser := by
  induction rounds generalizing parser left with
  | zero => exact .refuseDepth
  | succ rounds ih =>
    refine .rules_bind (.current_bind ?_)
    split
    · exact .pure _
    · next rule found =>
      split
      · let deeper : Parser σ := { parser with depth := parser.depth + 1 }
        have allow' : deeper.rules.Allow endToo := allow
        have allowed : deeper.current.kind = .eof → endToo := allow.of_infixRule found
        refine .descend_bind ((application_gets inner allow' allowed rule left).weaken.bind
          fun left after passes => ?_)
        exact ih after (passes.rules ▸ allow') left
      · exact .pure _

theorem chain_gets (inner : Advances endToo nested) (power : BindingPower) (parser : Parser σ)
    (allow : parser.rules.Allow endToo) : Gets endToo 1 (chain nested power) parser := by
  refine .rules_bind (.current_bind ?_)
  split
  · exact .throw rfl
  · next rule found =>
    let deeper : Parser σ :=
      { parser with
        depth := parser.depth + 1
        log := .operand parser.current.kind parser.current.start.offset :: parser.log }
    have allow' : deeper.rules.Allow endToo := allow
    have allowed : deeper.current.kind = .eof → endToo := allow.of_prefixRule found
    refine .descend_bind (.write_bind ((operand_gets inner allow' allowed rule).bind
      fun left after passes => ?_))
    exact extend_gets inner power levels after (passes.rules ▸ allow') left

/-- Each expression passes a token, its first one at least. -/
theorem expressionWithin_advances (rounds : Nat) :
    Advances endToo (expressionWithin (σ := σ) rounds) := by
  induction rounds with
  | zero => exact fun _ _ _ => .refuseDepth
  | succ rounds ih =>
    exact fun power parser allow => .restoringDepth (chain_gets ih power parser allow)

theorem expression_advances : Advances endToo (expression (σ := σ)) :=
  expressionWithin_advances levels

theorem Gets.effect (h : Gets endToo least step parser) :
    Gets endToo least (effect step) parser :=
  h.bind fun _ _ _ => .pure ()

/-- The report of a step is at the start of the token that it got to. -/
theorem Gets.of_error {diagnostic : Diagnostic} {after : Parser σ}
    (h : Gets endToo least step parser) (ran : step parser = .error diagnostic after) :
    parser.Passes endToo 0 after ∧ diagnostic.position = after.current.start := by
  rw [Gets, GetsFrom, Leads, ran] at h
  exact h

theorem Gets.of_ok {value : α} {after : Parser σ} (h : Gets endToo least step parser)
    (ran : step parser = .ok value after) : parser.Passes endToo least after := by
  rw [Gets, GetsFrom, Leads, ran] at h
  exact h

/-- Whether a step succeeds or fails, it leaves the parser further on. -/
theorem Gets.left (h : Gets endToo least step parser) :
    parser.Passes endToo 0 (left step parser) := by
  cases ran : step parser with
  | ok value after => exact left_of_ok ran ▸ (h.of_ok ran).weaken
  | error diagnostic after => exact left_of_error ran ▸ (h.of_error ran).1

end ParserM

open ParserM

/-- Whatever is done with a parser from outside fails at the token that it reports. A change of the
rules does not fail. -/
theorem Operation.refused (operation : Operation) {parser after : Parser σ}
    {diagnostic : Diagnostic} (ran : operation.step parser = .error diagnostic after) :
    parser.Passes True 0 after ∧ diagnostic.position = after.current.start := by
  have allow : parser.rules.Allow True := fun _ => trivial
  have allowed : parser.current.kind = .eof → True := fun _ => trivial
  cases operation with
  | advance => exact (Gets.advance allowed).effect.of_error ran
  | expect kind => exact (Gets.expect fun _ => trivial).effect.of_error ran
  | descend => exact (Gets.descend parser).of_error ran
  | setPrefix | setInfix | addStandardRules => cases ran
  | expression power => exact (expression_advances power parser allow).effect.of_error ran
  | operand rule => exact (operand_gets expression_advances allow allowed rule).effect.of_error ran
  | application rule left =>
    exact (application_gets expression_advances allow allowed rule left).effect.of_error ran

namespace Parser

/-- **A failed step stops at the token that it reports.** Whatever the source, the rules and the
depth of a parser are, and whatever is done with it: a failure is reported at the start of the token
that is current behind it, and the tokens before that one are those passed. An expression that can
be read has passed a token, so that before the end of the input fewer are left. -/
theorem stops_at_fault (parser : Parser σ) :
    (∀ (operation : Operation) diagnostic after,
      operation.step parser = .error diagnostic after →
        diagnostic.position = after.current.start ∧
          ∃ passed, Walk passed parser.source after.source) ∧
      ∀ power tree after, expression power parser = .ok tree after →
        ∃ passed, passed ≠ [] ∧ Walk passed parser.source after.source ∧
          (parser.current.kind ≠ .eof →
            TokenSource.remaining after.source < TokenSource.remaining parser.source) := by
  constructor
  · intro operation diagnostic after ran
    obtain ⟨⟨-, passed, -, -, walk⟩, position⟩ := operation.refused ran
    exact ⟨position, passed, walk⟩
  · intro power tree after ran
    have advances : Gets True 1 (expression power) parser :=
      expression_advances power parser fun _ => trivial
    obtain ⟨-, passed, enough, -, walk⟩ := advances.of_ok ran
    have notNil := List.ne_nil_of_length_pos enough
    exact ⟨passed, notNil, walk, walk.remaining_lt notNil⟩

/-- A bracket that is not closed where it should be. The rule for groups reports the token there,
and the expression inside has taken what is before it. -/
theorem stops_at_fault_unclosed :
    ∃ after : Parser Scanner,
      (Operation.operand .group).step (ofSource Rules.standard (Scanner.ofSource "(1 2" "sum")) =
          .error ⟨.expectedToken ")" "2", ⟨3, "sum"⟩⟩ after ∧
        after.current.start = ⟨3, "sum"⟩ ∧
        ∃ passed, Walk passed (Scanner.ofSource "(1 2" "sum") after.source := by
  let parser := ofSource Rules.standard (Scanner.ofSource "(1 2" "sum")
  have refused : ∃ after, (Operation.operand .group).step parser =
      .error ⟨.expectedToken ")" "2", ⟨3, "sum"⟩⟩ after := ⟨_, rfl⟩
  obtain ⟨after, ran⟩ := refused
  obtain ⟨position, walk⟩ := (stops_at_fault parser).1 _ _ _ ran
  exact ⟨after, ran, position.symm, walk⟩

end Parser

end ExprCheck
