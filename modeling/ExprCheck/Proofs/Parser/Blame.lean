import ExprCheck.Parser.Program
import ExprCheck.Proofs.Parser.Step

/-!
# What the parser reports of a token

Whatever the rules are, a step that fails reports the current token in one of a few ways, and each
of them says something of the kind of that token:

* `Rules.Rejects`: the reports that the rules have for a token.
* `Parser.Keeps`: what a step keeps, whether it fails or not, which is the rules and the bounds on
  the depth.
* `ParserM.Explains`: a step keeps this, and its report is one that the rules have for the token
  that it got to. One law for each way of putting steps together and one lemma for each rule of the
  parser.

A tree is refused as too deep only at a token that starts or continues one. Running out of rounds is
no such reason: the recursions have more rounds than the tree may have levels, so they never do.
-/

namespace ExprCheck

/-- The reports that the rules have for a token. -/
inductive Rules.Rejects (rules : Rules) (token : Token) : Diagnostic → Prop where
  /-- It cannot start an expression. -/
  | unexpected :
      rules.prefixRule? token.kind = .none ∨ token.kind.isLiteral = false →
      Rejects rules token token.unexpected
  /-- It is of another kind than the one expected. -/
  | insteadOf {expected} : token.kind ≠ expected → Rejects rules token (token.insteadOf expected)
  /-- It continues a conditional that is not there. -/
  | misplaced :
      rules.prefixRule? token.kind = some .misplaced → Rejects rules token token.misplaced
  /-- It would start or continue a tree that is too deep. -/
  | tooDeep :
      (rules.prefixRule? token.kind).isSome ∨ (rules.infixRule? token.kind).isSome ∨
        token.kind = .elsifWord →
      Rejects rules token token.tooDeep

/-- A report of a token is at its start. -/
theorem Rules.Rejects.position {rules : Rules} {token : Token} {diagnostic : Diagnostic}
    (h : rules.Rejects token diagnostic) : diagnostic.position = token.start := by
  cases h <;> rfl

/-- A report that a tree is too deep is the one that the rules have for the token. -/
theorem Rules.Rejects.eq_tooDeep {rules : Rules} {token : Token} {diagnostic : Diagnostic}
    (h : rules.Rejects token diagnostic) (isDeep : diagnostic.isTooDeep = true) :
    diagnostic = token.tooDeep := by
  cases h with
  | tooDeep => rfl
  | unexpected => simp at isDeep
  | insteadOf => simp at isDeep
  | misplaced => simp at isDeep

/-- What a step keeps: the rules, and the bounds on the depth. -/
structure Parser.Keeps {σ : Type} (before after : Parser σ) : Prop where
  rules : after.rules = before.rules
  depth : before.depth ≤ after.depth
  bounded : before.depth ≤ maxNestingDepth → after.depth ≤ maxNestingDepth

namespace Parser.Keeps

variable {σ : Type} {parser before middle after : Parser σ}

theorem refl (parser : Parser σ) : parser.Keeps parser :=
  ⟨rfl, Nat.le_refl _, id⟩

theorem trans (h : before.Keeps middle) (h' : middle.Keeps after) : before.Keeps after :=
  ⟨h'.rules.trans h.rules, Nat.le_trans h.depth h'.depth, fun bounded =>
    h'.bounded (h.bounded bounded)⟩

end Parser.Keeps

namespace ParserM

variable {σ α β : Type} [TokenSource σ]

/-- A step that starts no deeper than a tree may be, keeps the rules and the bounds on the depth and
reports the token that it gets to. -/
def Explains (step : ParserM σ α) (parser : Parser σ) : Prop :=
  parser.depth ≤ maxNestingDepth →
    Leads step (fun _ after => parser.Keeps after)
      (fun diagnostic after =>
        parser.Keeps after ∧ parser.rules.Rejects after.current diagnostic) parser

/-- A reader of expressions that does so from some depth on. -/
def Explaining (nested : BindingPower → ParserM σ Expr) (depth : Nat) : Prop :=
  ∀ power parser, depth ≤ parser.depth → Explains (nested power) parser

variable {parser : Parser σ} {step : ParserM σ α} {next : α → ParserM σ β}

/-! ### Putting steps together -/

namespace Explains

theorem pure (value : α) : Explains (Pure.pure value) parser :=
  fun _ => .refl parser

theorem throw {diagnostic : Diagnostic} (h : parser.rules.Rejects parser.current diagnostic) :
    Explains (α := α) (MonadExcept.throw diagnostic) parser :=
  fun _ => ⟨.refl parser, h⟩

/-- A step after others: what they kept is kept. -/
theorem after {middle : Parser σ} (h : Explains step middle) (kept : parser.Keeps middle)
    (bounded : parser.depth ≤ maxNestingDepth) :
    Leads step (fun _ last => parser.Keeps last)
      (fun diagnostic last => parser.Keeps last ∧ parser.rules.Rejects last.current diagnostic)
      middle := by
  refine (h (kept.bounded bounded)).mono (fun _ _ kept' => kept.trans kept') ?_
  intro diagnostic last refused
  rw [kept.rules] at refused
  exact ⟨kept.trans refused.1, refused.2⟩

theorem bind (h : Explains step parser)
    (h' : ∀ value after, parser.Keeps after → Explains (next value) after) :
    Explains (step >>= next) parser := by
  intro bounded
  rw [leads_bind]
  exact (h bounded).mono (fun value after kept => (h' value after kept).after kept bounded)
    fun _ _ refused => refused

theorem current_bind {next : Token → ParserM σ β} (h : Explains (next parser.current) parser) :
    Explains (current >>= next) parser :=
  h

theorem rules_bind {next : Rules → ParserM σ β} (h : Explains (next parser.rules) parser) :
    Explains (rules >>= next) parser :=
  h

theorem write_bind {entry : LogEntry} {next : Unit → ParserM σ β}
    (h : Explains (next ()) { parser with log := entry :: parser.log }) :
    Explains (write entry >>= next) parser := by
  intro bounded
  rw [leads_bind, leads_write]
  exact h.after ⟨rfl, Nat.le_refl _, id⟩ bounded

theorem advance (parser : Parser σ) : Explains advance parser :=
  fun _ => ⟨rfl, Nat.le_refl _, id⟩

theorem expect (expected : TokenKind) (parser : Parser σ) : Explains (expect expected) parser := by
  intro _
  rw [leads_expect]
  exact ⟨fun _ => ⟨rfl, Nat.le_refl _, id⟩, fun other => ⟨.refl parser, .insteadOf other⟩⟩

theorem withRemaining {step : Nat → ParserM σ α}
    (h : Explains (step (TokenSource.remaining parser.source)) parser) :
    Explains (withRemaining step) parser :=
  h

/-- Going deeper at a token that starts or continues a tree. -/
theorem descend_bind {next : Unit → ParserM σ β}
    (h : (parser.rules.prefixRule? parser.current.kind).isSome ∨
      (parser.rules.infixRule? parser.current.kind).isSome ∨ parser.current.kind = .elsifWord)
    (h' : Explains (next ()) { parser with depth := parser.depth + 1 }) :
    Explains (descend >>= next) parser := by
  intro bounded
  rw [leads_bind, leads_descend]
  refine ⟨fun below => ?_, fun _ => ⟨.refl parser, .tooDeep h⟩⟩
  exact h'.after ⟨rfl, Nat.le_succ _, fun _ => below⟩ bounded

theorem restoringDepth (h : Explains step parser) : Explains (restoringDepth step) parser := by
  intro bounded
  rw [leads_restoringDepth]
  refine (h bounded).mono ?_ ?_
  · intro value after kept
    exact ⟨kept.rules, Nat.le_refl _, id⟩
  · intro diagnostic after refused
    exact ⟨⟨refused.1.rules, Nat.le_refl _, id⟩, refused.2⟩

/-- Rounds that run out beyond the depth that a tree may have never do. -/
theorem of_no_rounds (h : levels ≤ parser.depth) : Explains step parser :=
  fun bounded => absurd (Nat.le_trans h bounded) (Nat.not_succ_le_self _)

end Explains

variable {nested : BindingPower → ParserM σ Expr} {depth : Nat}

/-! ### Operands -/

theorem literal_explains (parser : Parser σ) : Explains literal parser := by
  refine .current_bind ?_
  split
  · exact (Explains.advance parser).bind fun _ _ _ => .pure _
  · next notLiteral => exact .throw (.unexpected (.inr (by simpa using notLiteral)))

theorem sign_explains (explaining : Explaining nested depth) (deep : depth ≤ parser.depth) :
    Explains (sign nested) parser := by
  refine .rules_bind ((Explains.advance parser).bind fun _ after kept => ?_)
  exact (explaining _ after (Nat.le_trans deep kept.depth)).bind fun _ _ _ => .pure _

theorem group_explains (explaining : Explaining nested depth) (deep : depth ≤ parser.depth) :
    Explains (group nested) parser := by
  refine (Explains.advance parser).bind fun _ after kept => ?_
  refine (explaining .lowest after (Nat.le_trans deep kept.depth)).bind fun _ last _ => ?_
  exact (Explains.expect .closeParen last).bind fun _ _ _ => .pure _

theorem itemsUntil_explains (explaining : Explaining nested depth) (parser : Parser σ)
    {closing : TokenKind} {rounds : Nat} (deep : depth ≤ parser.depth) :
    Explains (itemsUntil nested closing rounds) parser := by
  induction rounds generalizing parser with
  | zero => exact .pure _
  | succ rounds ih =>
    refine .current_bind ?_
    split
    · exact .pure _
    · refine (explaining .lowest parser deep).bind fun _ after kept => ?_
      exact (ih after (Nat.le_trans deep kept.depth)).bind fun _ _ _ => .pure _

theorem block_explains (explaining : Explaining nested depth) (parser : Parser σ)
    (deep : depth ≤ parser.depth) : Explains (block nested) parser := by
  refine (Explains.expect .openCurly parser).bind fun _ middle kept => ?_
  have deep' := Nat.le_trans deep kept.depth
  refine (Explains.withRemaining (itemsUntil_explains explaining middle deep')).bind
    fun _ after _ => ?_
  exact (Explains.expect .closeCurly after).bind fun _ _ _ => .pure _

/-- A conditional that may go round as often as it may go deeper. -/
theorem branchWithin_explains (explaining : Explaining nested depth) (parser : Parser σ)
    {rounds : Nat} (deep : depth ≤ parser.depth) (enough : levels ≤ rounds + parser.depth) :
    Explains (branchWithin nested rounds) parser := by
  induction rounds generalizing parser with
  | zero => exact .of_no_rounds (by rwa [Nat.zero_add] at enough)
  | succ rounds ih =>
    refine (Explains.advance parser).bind fun _ middle kept => ?_
    have deep' := Nat.le_trans deep kept.depth
    refine (explaining .lowest middle deep').bind fun _ middle' kept' => ?_
    have deep'' := Nat.le_trans deep' kept'.depth
    refine (block_explains explaining middle' deep'').bind fun _ after kept'' => ?_
    have below := ((kept.trans kept').trans kept'').depth
    refine .current_bind ?_
    split
    · next isElsif =>
      refine .descend_bind (.inr (.inr isElsif)) ?_
      have enough' : levels ≤ rounds + (after.depth + 1) := by omega
      exact (ih _ (Nat.le_succ_of_le (Nat.le_trans deep below)) enough').bind fun _ _ _ => .pure _
    · refine (Explains.advance after).bind fun _ last kept => ?_
      refine (block_explains explaining last ?_).bind fun _ _ _ => .pure _
      exact Nat.le_trans deep (Nat.le_trans below kept.depth)
    · exact .pure _

/-- An operand, read by the rule of its first token. -/
theorem operand_explains (explaining : Explaining nested depth) (parser : Parser σ)
    (deep : depth ≤ parser.depth) {rule : PrefixRule}
    (found : parser.rules.prefixRule? parser.current.kind = some rule) :
    Explains (operand nested rule) parser := by
  cases rule with
  | literal => exact literal_explains parser
  | sign => exact sign_explains explaining deep
  | group => exact group_explains explaining deep
  | block => exact block_explains explaining parser deep
  | branch => exact branchWithin_explains explaining parser deep (Nat.le_add_right _ _)
  | misplaced => exact .current_bind (.throw (.misplaced found))

/-! ### Operators and expressions -/

theorem application_explains (explaining : Explaining nested depth) (parser : Parser σ)
    (deep : depth ≤ parser.depth) (rule : InfixRule) (left : Expr) :
    Explains (application nested rule left) parser := by
  refine (Explains.advance parser).bind fun _ after kept => ?_
  exact (explaining _ after (Nat.le_trans deep kept.depth)).bind fun _ _ _ => .pure _

/-- The operators after an operand, which may go round as often as they may go deeper. -/
theorem extend_explains (explaining : Explaining nested depth) (parser : Parser σ)
    (power : BindingPower) {rounds : Nat} (left : Expr) (deep : depth ≤ parser.depth)
    (enough : levels ≤ rounds + parser.depth) :
    Explains (extend nested power rounds left) parser := by
  induction rounds generalizing parser left with
  | zero => exact .of_no_rounds (by rwa [Nat.zero_add] at enough)
  | succ rounds ih =>
    refine .rules_bind (.current_bind ?_)
    split
    · exact .pure _
    · next rule found =>
      split
      · refine .descend_bind (.inr (.inl (Option.isSome_of_eq_some found))) ?_
        have deep' : depth ≤ parser.depth + 1 := Nat.le_succ_of_le deep
        refine (application_explains explaining _ deep' rule left).bind fun _ after kept => ?_
        have below : parser.depth + 1 ≤ after.depth := kept.depth
        exact ih after _ (by omega) (by omega)
      · exact .pure _

theorem chain_explains (explaining : Explaining nested (depth + 1)) (parser : Parser σ)
    (power : BindingPower) (deep : depth ≤ parser.depth) :
    Explains (chain nested power) parser := by
  refine .rules_bind (.current_bind ?_)
  split
  · next notFound => exact .throw (.unexpected (.inl notFound))
  · next rule found =>
    refine .descend_bind (.inl (Option.isSome_of_eq_some found)) (.write_bind ?_)
    let deeper : Parser σ :=
      { parser with
        depth := parser.depth + 1
        log := .operand parser.current.kind parser.current.start.offset :: parser.log }
    have deep' : depth + 1 ≤ deeper.depth := Nat.succ_le_succ deep
    refine (operand_explains explaining deeper deep' found).bind fun left after kept => ?_
    exact extend_explains explaining after power left (Nat.le_trans deep' kept.depth)
      (Nat.le_add_right _ _)

theorem expressionWithin_explaining (rounds depth : Nat) (enough : levels ≤ rounds + depth) :
    Explaining (σ := σ) (expressionWithin rounds) depth := by
  induction rounds generalizing depth with
  | zero =>
    intro _ parser deep
    exact .of_no_rounds (Nat.le_trans (by rwa [Nat.zero_add] at enough) deep)
  | succ rounds ih =>
    intro power parser deep
    exact .restoringDepth (chain_explains (ih (depth + 1) (by omega)) parser power deep)

theorem rejects_of_expression {power : BindingPower} {diagnostic : Diagnostic} {after : Parser σ}
    (bounded : parser.depth ≤ maxNestingDepth)
    (ran : expression power parser = .error diagnostic after) :
    parser.rules.Rejects after.current diagnostic := by
  have explains := expressionWithin_explaining levels 0 (Nat.le_refl _) power parser
    (Nat.zero_le _) bounded
  rw [Leads, show expressionWithin levels power parser = _ from ran] at explains
  exact explains.2

theorem program_explains (parser : Parser σ) : Explains program parser := by
  have explaining := expressionWithin_explaining (σ := σ) levels 0 (Nat.le_refl _)
  refine .current_bind ?_
  refine (Explains.withRemaining (itemsUntil_explains explaining parser (Nat.zero_le _))).bind
    fun _ after _ => ?_
  exact .write_bind (.current_bind (.pure _))

end ParserM

end ExprCheck
