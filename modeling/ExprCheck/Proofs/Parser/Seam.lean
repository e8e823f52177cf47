import ExprCheck.Proofs.Parser.Entry
import ExprCheck.Proofs.Parser.Follow
import ExprCheck.Proofs.Parser.Lockstep

/-!
# Reading up to a seam

The rules of the language never pass the end of the input, and before it they ask of the next token
only whether it goes on with what they are reading. So what they read where a text ends, they read
where the text goes on with a token that ends every expression as well:

* `TokenKind.IsIdle`: the kinds that no rule passes, as the end of the input is.
* `Parser.Abuts`: two parsers with the same tokens up to a seam. Behind it the first has an idle
  token, and the second has a token that ends every expression. The second is no deeper than the
  first.
* `ParserM.Carries`: a success of the first step is a success of the second, with the same value,
  and the parsers behind them abut again.
* One lemma for each way of putting steps together and for each rule of the parser.
* `ParserM.expressionWithin_carries`: expressions; `expression_before_iff`: those before an idle
  token are the single expressions.

Nothing is said of a failure of the first step: an open bracket is an error at the end of a text,
but not before the text that closes it.
-/

namespace ExprCheck

variable {σ τ α β : Type} [TokenSource σ] [TokenSource τ]

/-- No rule of the language passes a token of this kind. -/
def TokenKind.IsIdle (kind : TokenKind) : Prop :=
  Rules.standardPrefix? kind = none ∧ Rules.standardInfix? kind = none ∧
    kind ≠ .closeParen ∧ kind ≠ .closeCurly

instance (kind : TokenKind) : Decidable kind.IsIdle :=
  inferInstanceAs (Decidable (_ ∧ _ ∧ _ ∧ _))

/-- The next token is one that no rule passes. -/
def Idles (tokens : List Token) : Prop :=
  ∃ next later, tokens = next :: later ∧ next.kind.IsIdle

theorem Idles.of_kind {first : Token} {kind : TokenKind} (eq : first.kind = kind)
    (idle : kind.IsIdle) (later : List Token) : Idles (first :: later) :=
  ⟨first, later, rfl, eq ▸ idle⟩

theorem TokenKind.not_isIdle_of_prefixRule {kind : TokenKind} {rule : PrefixRule}
    (found : Rules.standardPrefix? kind = some rule) : ¬ kind.IsIdle := by
  rintro ⟨notFound, -⟩
  rw [found] at notFound
  cases notFound

theorem TokenKind.not_isIdle_of_infixRule {kind : TokenKind} {rule : InfixRule}
    (found : Rules.standardInfix? kind = some rule) : ¬ kind.IsIdle := by
  rintro ⟨-, notFound, -⟩
  rw [found] at notFound
  cases notFound

/-- Two parsers under the standard rules with the same tokens before the rest of each, the second no
deeper than the first. -/
structure Parser.Abuts (rest rest' : List Token) (parser : Parser σ) (other : Parser τ) : Prop where
  standard : parser.rules = Rules.standard
  standard' : other.rules = Rules.standard
  tokens : ∃ shared, parser.tokens = shared ++ rest ∧ other.tokens = shared ++ rest'
  depth : other.depth ≤ parser.depth

variable {rest rest' : List Token} {parser : Parser σ} {other : Parser τ}

namespace Parser.Abuts

theorem length_eq (abuts : parser.Abuts rest rest' other) :
    other.tokens.length + rest.length = parser.tokens.length + rest'.length := by
  obtain ⟨shared, eq, eq'⟩ := abuts.tokens
  rw [eq, eq', List.length_append, List.length_append]
  omega

theorem le_length (abuts : parser.Abuts rest rest' other) :
    rest.length ≤ parser.tokens.length := by
  obtain ⟨shared, eq, -⟩ := abuts.tokens
  rw [eq, List.length_append]
  exact Nat.le_add_left _ _

/-- Before the seam the parsers have the same token. -/
theorem current (abuts : parser.Abuts rest rest' other)
    (ahead : rest.length < parser.tokens.length) : other.current = parser.current := by
  obtain ⟨shared, eq, eq'⟩ := abuts.tokens
  cases shared with
  | nil =>
    rw [eq, List.nil_append] at ahead
    exact absurd ahead (Nat.lt_irrefl _)
  | cons first later => rw [parser.current_of_tokens eq, other.current_of_tokens eq']

/-- At the seam each parser has what is behind it. -/
theorem at_seam (abuts : parser.Abuts rest rest' other)
    (there : parser.tokens.length ≤ rest.length) :
    parser.tokens = rest ∧ other.tokens = rest' := by
  obtain ⟨shared, eq, eq'⟩ := abuts.tokens
  rw [eq, List.length_append] at there
  obtain rfl := List.eq_nil_of_length_eq_zero (show shared.length = 0 by omega)
  exact ⟨eq, eq'⟩

/-- A token that some rule passes stands before the seam. -/
theorem ahead (abuts : parser.Abuts rest rest' other) (idles : Idles rest)
    (busy : ¬ parser.current.kind.IsIdle) : rest.length < parser.tokens.length := by
  by_contra there
  obtain ⟨next, later, rfl, idle⟩ := idles
  have eq := (abuts.at_seam (Nat.not_lt.1 there)).1
  exact busy (parser.current_of_tokens eq ▸ idle)

theorem passed (abuts : parser.Abuts rest rest' other) (idles : Idles rest)
    (busy : ¬ parser.current.kind.IsIdle) : parser.passed.Abuts rest rest' other.passed := by
  have ahead := abuts.ahead idles busy
  obtain ⟨shared, eq, eq'⟩ := abuts.tokens
  cases shared with
  | nil =>
    rw [eq, List.nil_append] at ahead
    exact absurd ahead (Nat.lt_irrefl _)
  | cons first later =>
    have notEnd : first.kind ≠ .eof := by
      intro isEnd
      rw [parser.current_of_tokens eq, isEnd] at busy
      exact busy (by decide)
    exact ⟨abuts.standard, abuts.standard',
      ⟨later, parser.tokens_passed eq notEnd, other.tokens_passed eq' notEnd⟩, abuts.depth⟩

/-- At the seam neither parser is before an operator. -/
theorem infixRule_eq (abuts : parser.Abuts rest rest' other) (idles : Idles rest)
    (stops : Stops rest') :
    Rules.standardInfix? other.current.kind = Rules.standardInfix? parser.current.kind := by
  rcases Nat.lt_or_ge rest.length parser.tokens.length with ahead | there
  · rw [abuts.current ahead]
  · obtain ⟨next, later, rfl, idle⟩ := idles
    obtain ⟨next', later', rfl, closes⟩ := stops
    obtain ⟨eq, eq'⟩ := abuts.at_seam there
    rw [parser.current_of_tokens eq, other.current_of_tokens eq', idle.2.1, closes.1]

/-- At the seam neither parser is before a continuation of a conditional. -/
theorem continuation (abuts : parser.Abuts rest rest' other) (stops : Stops rest') :
    other.current = parser.current ∨
      other.current.kind ≠ .elsifWord ∧ other.current.kind ≠ .elseWord := by
  rcases Nat.lt_or_ge rest.length parser.tokens.length with ahead | there
  · exact .inl (abuts.current ahead)
  · obtain ⟨next', later', rfl, closes⟩ := stops
    rw [other.current_of_tokens (abuts.at_seam there).2]
    exact .inr closes.2

theorem deeper (abuts : parser.Abuts rest rest' other) :
    Abuts rest rest' { parser with depth := parser.depth + 1 }
      { other with depth := other.depth + 1 } :=
  ⟨abuts.standard, abuts.standard', abuts.tokens, Nat.succ_le_succ abuts.depth⟩

end Parser.Abuts

namespace ParserM

variable (rest rest') in
/-- Whenever the first step succeeds, it has passed at least so many tokens, the second step
succeeds with the same value, and the parsers behind them abut. -/
def Carries (passes : Nat) (step : ParserM σ α) (step' : ParserM τ α) (parser : Parser σ)
    (other : Parser τ) : Prop :=
  ∀ value after, step parser = .ok value after →
    after.tokens.length + passes ≤ parser.tokens.length ∧
      ∃ after', step' other = .ok value after' ∧ after.Abuts rest rest' after'

variable {passes : Nat}

/-! ### Putting steps together -/

namespace Carries

theorem pure (abuts : parser.Abuts rest rest' other) (value : α) :
    Carries rest rest' 0 (Pure.pure value) (Pure.pure value) parser other := by
  intro _ _ ran
  cases ran
  exact ⟨Nat.le_refl _, other, rfl, abuts⟩

/-- A step that fails carries nothing over. -/
theorem of_error {step : ParserM σ α} {step' : ParserM τ α} {diagnostic : Diagnostic}
    {after : Parser σ} (ran : step parser = .error diagnostic after) :
    Carries rest rest' passes step step' parser other := by
  intro _ _ ran'
  rw [ran] at ran'
  cases ran'

/-- The tokens that both pass need not count. -/
theorem uncounted {step : ParserM σ α} {step' : ParserM τ α}
    (h : Carries rest rest' passes step step' parser other) :
    Carries rest rest' 0 step step' parser other := by
  intro value after ran
  obtain ⟨shorter, carried⟩ := h value after ran
  exact ⟨Nat.le_of_add_right_le shorter, carried⟩

/-- Two steps one after the other, of which the first passes the tokens that count. -/
theorem bind {step : ParserM σ β} {step' : ParserM τ β} {next : β → ParserM σ α}
    {next' : β → ParserM τ α} (h : Carries rest rest' passes step step' parser other)
    (goal : ∀ value (after : Parser σ) (after' : Parser τ), after.Abuts rest rest' after' →
      Carries rest rest' 0 (next value) (next' value) after after') :
    Carries rest rest' passes (step >>= next) (step' >>= next') parser other := by
  intro value last ran
  obtain ⟨value', after, first, second⟩ := of_bind_ok ran
  obtain ⟨shorter, after', first', abuts⟩ := h value' after first
  obtain ⟨shorter', last', second', abuts'⟩ := goal value' after after' abuts value last second
  exact ⟨by omega, last', (bind_of_ok first').trans second', abuts'⟩

theorem current_bind {next : Token → ParserM σ α} {next' : Token → ParserM τ α}
    (h : Carries rest rest' passes (next parser.current) (next' other.current) parser other) :
    Carries rest rest' passes (current >>= next) (current >>= next') parser other :=
  h

theorem rules_bind {next : Rules → ParserM σ α} {next' : Rules → ParserM τ α}
    (abuts : parser.Abuts rest rest' other)
    (h : Carries rest rest' passes (next Rules.standard) (next' Rules.standard) parser other) :
    Carries rest rest' passes (rules >>= next) (rules >>= next') parser other := by
  intro value after ran
  have ran : next parser.rules parser = .ok value after := ran
  rw [abuts.standard] at ran
  obtain ⟨shorter, after', ran', abuts'⟩ := h value after ran
  rw [← abuts.standard'] at ran'
  exact ⟨shorter, after', ran', abuts'⟩

theorem write_bind {next : Unit → ParserM σ α} {next' : Unit → ParserM τ α}
    {entry entry' : LogEntry}
    (h : Carries rest rest' passes (next ()) (next' ()) { parser with log := entry :: parser.log }
      { other with log := entry' :: other.log }) :
    Carries rest rest' passes (write entry >>= next) (write entry' >>= next') parser other :=
  h

/-- Where the first parser may go deeper, so may the second. -/
theorem descend_bind {next : Unit → ParserM σ α} {next' : Unit → ParserM τ α}
    (abuts : parser.Abuts rest rest' other)
    (h : Carries rest rest' passes (next ()) (next' ()) { parser with depth := parser.depth + 1 }
      { other with depth := other.depth + 1 }) :
    Carries rest rest' passes (descend >>= next) (descend >>= next') parser other := by
  by_cases deep : maxNestingDepth ≤ parser.depth
  · exact of_error (bind_of_error (if_pos deep))
  · have deep' : ¬ maxNestingDepth ≤ other.depth := fun deep' =>
      deep (Nat.le_trans deep' abuts.depth)
    intro value after ran
    obtain ⟨shorter, after', ran', abuts'⟩ :=
      h value after ((bind_of_ok (if_neg deep)).symm.trans ran)
    exact ⟨shorter, after', (bind_of_ok (if_neg deep')).trans ran', abuts'⟩

theorem restoringDepth {step : ParserM σ α} {step' : ParserM τ α}
    (abuts : parser.Abuts rest rest' other)
    (h : Carries rest rest' passes step step' parser other) :
    Carries rest rest' passes (restoringDepth step) (restoringDepth step') parser other := by
  intro value after ran
  cases inner : step parser with
  | error diagnostic middle =>
    rw [ParserM.restoringDepth, inner] at ran
    cases ran
  | ok value' middle =>
    rw [ParserM.restoringDepth, inner] at ran
    cases ran
    obtain ⟨shorter, middle', inner', abuts'⟩ := h value middle inner
    refine ⟨shorter, { middle' with depth := other.depth }, ?_, abuts'.standard, abuts'.standard',
      abuts'.tokens, abuts.depth⟩
    rw [ParserM.restoringDepth, inner']

/-! ### Basic steps -/

theorem advance (idles : Idles rest) (abuts : parser.Abuts rest rest' other)
    (busy : ¬ parser.current.kind.IsIdle) : Carries rest rest' 1 advance advance parser other := by
  intro _ _ ran
  cases ran
  have notEnd : parser.current.kind ≠ .eof := fun isEnd => busy (isEnd ▸ by decide)
  refine ⟨Nat.le_of_eq (Parser.length_tokens_passed notEnd), other.passed, ?_,
    abuts.passed idles busy⟩
  rw [← abuts.current (abuts.ahead idles busy)]
  rfl

theorem expect (idles : Idles rest) (abuts : parser.Abuts rest rest' other) {expected : TokenKind}
    (busy : ¬ expected.IsIdle) :
    Carries rest rest' 1 (expect expected) (expect expected) parser other := by
  by_cases found : parser.current.kind = expected
  · rw [← found] at busy
    have found' : other.current.kind = expected := by
      rw [abuts.current (abuts.ahead idles busy)]
      exact found
    intro value after ran
    obtain ⟨shorter, after', ran', abuts'⟩ :=
      advance idles abuts busy value after ((if_pos found).symm.trans ran)
    exact ⟨shorter, after', (if_pos found').trans ran', abuts'⟩
  · exact of_error (if_neg found)

end Carries

/-! ### Rows -/

variable (rest rest') in
/-- Two readers of expressions, of which the second reads what the first reads. -/
def AllCarry (nested : BindingPower → ParserM σ Expr) (nested' : BindingPower → ParserM τ Expr) :
    Prop :=
  ∀ power (parser : Parser σ) (other : Parser τ), parser.Abuts rest rest' other →
    Carries rest rest' 1 (nested power) (nested' power) parser other

variable {nested : BindingPower → ParserM σ Expr} {nested' : BindingPower → ParserM τ Expr}

/-- The next element of a row is read by both parsers, from the same token, and the second has a
round for it. -/
theorem AllCarry.item (carry : AllCarry rest rest' nested nested')
    (abuts : parser.Abuts rest rest' other) {rounds' : Nat} {item : Expr} {middle : Parser σ}
    (enough' : other.tokens.length ≤ rounds' + 1)
    (ran : nested .lowest parser = .ok item middle) :
    middle.tokens.length + 1 ≤ parser.tokens.length ∧ other.current = parser.current ∧
      ∃ fewer middle', rounds' = fewer + 1 ∧ nested' .lowest other = .ok item middle' ∧
        middle.Abuts rest rest' middle' ∧ middle'.tokens.length ≤ fewer + 1 := by
  obtain ⟨shorter, middle', ran', abuts'⟩ := carry .lowest parser other abuts item middle ran
  have size := abuts.length_eq
  have size' := abuts'.length_eq
  have seam := abuts'.le_length
  have more := middle'.length_tokens_pos
  exact ⟨shorter, abuts.current (by omega), rounds' - 1, middle', by omega, ran', abuts', by omega⟩

/-- One round of a row, where it does not end. -/
theorem itemsUntil_succ {closing : TokenKind} {rounds : Nat}
    (goesOn : ¬ (parser.current.kind = closing ∨ parser.current.kind = .eof)) :
    itemsUntil nested closing (rounds + 1) parser =
      (nested .lowest >>= fun item => itemsUntil nested closing rounds >>= fun later =>
        pure (item :: later)) parser := by
  rw [itemsUntil, bind_current, if_neg goesOn]

/-- A closing bracket ends the row of either parser. -/
theorem itemsUntil_of_closing (idles : Idles rest) (abuts : parser.Abuts rest rest' other)
    {closing : TokenKind} (busy : ¬ closing.IsIdle) (isClosing : parser.current.kind = closing)
    (rounds' : Nat) : itemsUntil nested' closing rounds' other = .ok [] other := by
  rw [← isClosing] at busy
  refine itemsUntil_of_ends (.inl ?_) rounds'
  rw [abuts.current (abuts.ahead idles busy), isClosing]

/-- A row up to its closing bracket, which stands before the seam. -/
theorem itemsUntil_carries (idles : Idles rest) (carry : AllCarry rest rest' nested nested')
    (abuts : parser.Abuts rest rest' other) {closing : TokenKind} (busy : ¬ closing.IsIdle)
    {rounds rounds' : Nat} (enough' : other.tokens.length ≤ rounds' + 1) {items : List Expr}
    {after : Parser σ} (ran : itemsUntil nested closing rounds parser = .ok items after)
    (isClosing : after.current.kind = closing) :
    after.tokens.length ≤ parser.tokens.length ∧
      ∃ after', itemsUntil nested' closing rounds' other = .ok items after' ∧
        after.Abuts rest rest' after' := by
  induction rounds generalizing parser other rounds' items with
  | zero =>
    cases ran
    exact ⟨Nat.le_refl _, other, itemsUntil_of_closing idles abuts busy isClosing _, abuts⟩
  | succ rounds ih =>
    by_cases ends : parser.current.kind = closing ∨ parser.current.kind = .eof
    · rw [itemsUntil_of_ends ends] at ran
      cases ran
      exact ⟨Nat.le_refl _, other, itemsUntil_of_closing idles abuts busy isClosing _, abuts⟩
    · rw [itemsUntil_succ ends] at ran
      obtain ⟨item, middle, first, second⟩ := of_bind_ok ran
      obtain ⟨later, last, second, done⟩ := of_bind_ok second
      cases done
      obtain ⟨shorter, same, fewer, middle', rfl, first', abuts', enough⟩ :=
        carry.item abuts enough' first
      obtain ⟨shorter', after', second', abuts''⟩ := ih abuts' enough second
      refine ⟨by omega, after', ?_, abuts''⟩
      rw [itemsUntil_succ (by rwa [same]), bind_of_ok first', bind_of_ok second']
      rfl

/-- A row and its closing bracket. -/
theorem closedRow_carries (idles : Idles rest) (carry : AllCarry rest rest' nested nested')
    (abuts : parser.Abuts rest rest' other) {closing : TokenKind} (busy : ¬ closing.IsIdle)
    (tree : List Expr → Token → Expr) :
    Carries rest rest' 0
      (withRemaining (itemsUntil nested closing) >>= fun items =>
        expect closing >>= fun last => pure (tree items last))
      (withRemaining (itemsUntil nested' closing) >>= fun items =>
        expect closing >>= fun last => pure (tree items last)) parser other := by
  intro value last ran
  obtain ⟨items, middle, row, ran⟩ := of_bind_ok ran
  obtain ⟨token, after, closes, done⟩ := of_bind_ok ran
  cases done
  have isClosing : middle.current.kind = closing := by
    by_contra notClosing
    rw [expect, if_neg notClosing] at closes
    cases closes
  obtain ⟨shorter, middle', row', abuts'⟩ := itemsUntil_carries idles carry abuts busy
    (length_tokens_le_remaining other) row isClosing
  obtain ⟨shorter', after', closes', abuts''⟩ := Carries.expect idles abuts' busy token last closes
  refine ⟨by omega, after', ?_, abuts''⟩
  rw [bind_of_ok (show withRemaining (itemsUntil nested' closing) other = .ok items middle' from
    row'), bind_of_ok closes']
  rfl

/-! ### Operands -/

theorem literal_carries (idles : Idles rest) (abuts : parser.Abuts rest rest' other)
    (busy : ¬ parser.current.kind.IsIdle) : Carries rest rest' 1 literal literal parser other := by
  simp only [literal]
  refine .current_bind ?_
  rw [abuts.current (abuts.ahead idles busy)]
  by_cases isLiteral : parser.current.kind.isLiteral
  · simp only [if_pos isLiteral]
    exact (Carries.advance idles abuts busy).bind fun _ _ _ abuts => .pure abuts _
  · simp only [if_neg isLiteral]
    exact .of_error rfl

theorem sign_carries (idles : Idles rest) (carry : AllCarry rest rest' nested nested')
    (abuts : parser.Abuts rest rest' other) (busy : ¬ parser.current.kind.IsIdle) :
    Carries rest rest' 1 (sign nested) (sign nested') parser other := by
  simp only [sign]
  refine .rules_bind abuts ((Carries.advance idles abuts busy).bind fun _ after after' abuts => ?_)
  exact ((carry _ after after' abuts).bind fun _ _ _ abuts => .pure abuts _).uncounted

theorem group_carries (idles : Idles rest) (carry : AllCarry rest rest' nested nested')
    (abuts : parser.Abuts rest rest' other) (busy : ¬ parser.current.kind.IsIdle) :
    Carries rest rest' 1 (group nested) (group nested') parser other := by
  simp only [group]
  refine (Carries.advance idles abuts busy).bind fun _ after after' abuts => ?_
  refine ((carry _ after after' abuts).bind fun _ _ _ abuts => ?_).uncounted
  refine ((Carries.expect idles abuts ?_).bind fun _ _ _ abuts => .pure abuts _).uncounted
  decide

theorem block_carries (idles : Idles rest) (carry : AllCarry rest rest' nested nested')
    (abuts : parser.Abuts rest rest' other) :
    Carries rest rest' 1 (block nested) (block nested') parser other := by
  simp only [block]
  refine (Carries.expect idles abuts (by decide)).bind fun opening _ _ abuts => ?_
  exact closedRow_carries idles carry abuts (by decide) fun items closing =>
    .block () items ⟨opening.span.start, closing.span.stop⟩

theorem branchWithin_carries (idles : Idles rest) (stops : Stops rest')
    (carry : AllCarry rest rest' nested nested') (abuts : parser.Abuts rest rest' other)
    (rounds : Nat) (busy : ¬ parser.current.kind.IsIdle) :
    Carries rest rest' 1 (branchWithin nested rounds) (branchWithin nested' rounds) parser
      other := by
  induction rounds generalizing parser other with
  | zero => exact .of_error rfl
  | succ rounds ih =>
    simp only [branchWithin]
    refine (Carries.advance idles abuts busy).bind fun word start start' abuts => ?_
    refine ((carry _ start start' abuts).bind fun condition _ _ abuts => ?_).uncounted
    refine ((block_carries idles carry abuts).bind fun body after after' abuts => ?_).uncounted
    refine .current_bind ?_
    by_cases isElsif : after.current.kind = .elsifWord
    · have busy : ¬ after.current.kind.IsIdle := isElsif ▸ by decide
      rw [abuts.current (abuts.ahead idles busy)]
      simp only [isElsif]
      refine .descend_bind abuts ?_
      exact ((ih abuts.deeper busy).bind fun _ _ _ abuts => .pure abuts _).uncounted
    by_cases isElse : after.current.kind = .elseWord
    · have busy : ¬ after.current.kind.IsIdle := isElse ▸ by decide
      rw [abuts.current (abuts.ahead idles busy)]
      simp only [isElse]
      refine ((Carries.advance idles abuts busy).bind fun _ _ _ abuts => ?_).uncounted
      exact ((block_carries idles carry abuts).bind fun _ _ _ abuts => .pure abuts _).uncounted
    · have ends : after'.current.kind ≠ .elsifWord ∧ after'.current.kind ≠ .elseWord := by
        rcases abuts.continuation stops with same | ends
        · rw [same]
          exact ⟨isElsif, isElse⟩
        · exact ends
      split
      · next isElsif' => exact absurd isElsif' isElsif
      · next isElse' => exact absurd isElse' isElse
      · split
        · next isElsif' => exact absurd isElsif' ends.1
        · next isElse' => exact absurd isElse' ends.2
        · exact .pure abuts _

theorem operand_carries (idles : Idles rest) (stops : Stops rest')
    (carry : AllCarry rest rest' nested nested') (abuts : parser.Abuts rest rest' other)
    (rule : PrefixRule) (busy : ¬ parser.current.kind.IsIdle) :
    Carries rest rest' 1 (operand nested rule) (operand nested' rule) parser other := by
  cases rule with
  | literal => exact literal_carries idles abuts busy
  | sign => exact sign_carries idles carry abuts busy
  | group => exact group_carries idles carry abuts busy
  | block => exact block_carries idles carry abuts
  | branch => exact branchWithin_carries idles stops carry abuts levels busy
  | misplaced => exact .of_error rfl

/-! ### Operators and expressions -/

theorem application_carries (idles : Idles rest) (carry : AllCarry rest rest' nested nested')
    (abuts : parser.Abuts rest rest' other) (rule : InfixRule) (left : Expr)
    (busy : ¬ parser.current.kind.IsIdle) :
    Carries rest rest' 1 (application nested rule left) (application nested' rule left) parser
      other := by
  simp only [application]
  refine (Carries.advance idles abuts busy).bind fun _ after after' abuts => ?_
  exact ((carry _ after after' abuts).bind fun _ _ _ abuts => .pure abuts _).uncounted

theorem extend_carries (idles : Idles rest) (stops : Stops rest')
    (carry : AllCarry rest rest' nested nested') (abuts : parser.Abuts rest rest' other)
    (power : BindingPower) (rounds : Nat) (left : Expr) :
    Carries rest rest' 0 (extend nested power rounds left) (extend nested' power rounds left) parser
      other := by
  induction rounds generalizing parser other left with
  | zero => exact .of_error rfl
  | succ rounds ih =>
    simp only [extend]
    refine .rules_bind abuts (.current_bind ?_)
    rw [show Rules.standard.infixRule? other.current.kind = _ from
      abuts.infixRule_eq idles stops]
    cases found : Rules.standardInfix? parser.current.kind with
    | none =>
      simp only [Rules.standard, found]
      exact .pure abuts left
    | some rule =>
      simp only [Rules.standard, found]
      by_cases tighter : power < rule.power
      · simp only [if_pos tighter]
        refine .descend_bind abuts ?_
        have busy := TokenKind.not_isIdle_of_infixRule found
        exact ((application_carries idles carry abuts.deeper rule left busy).bind
          fun left _ _ abuts => ih abuts left).uncounted
      · simp only [if_neg tighter]
        exact .pure abuts left

theorem chain_carries (idles : Idles rest) (stops : Stops rest')
    (carry : AllCarry rest rest' nested nested') (abuts : parser.Abuts rest rest' other)
    (power : BindingPower) :
    Carries rest rest' 1 (chain nested power) (chain nested' power) parser other := by
  simp only [chain]
  refine .rules_bind abuts (.current_bind ?_)
  cases found : Rules.standardPrefix? parser.current.kind with
  | none =>
    simp only [Rules.standard, found]
    exact .of_error rfl
  | some rule =>
    have busy := TokenKind.not_isIdle_of_prefixRule found
    rw [abuts.current (abuts.ahead idles busy)]
    simp only [Rules.standard, found]
    refine .descend_bind abuts (.write_bind ?_)
    have written : Parser.Abuts rest rest'
        { parser with
          depth := parser.depth + 1
          log := .operand parser.current.kind parser.current.start.offset :: parser.log }
        { other with
          depth := other.depth + 1
          log := .operand parser.current.kind parser.current.start.offset :: other.log } :=
      ⟨abuts.standard, abuts.standard', abuts.tokens, Nat.succ_le_succ abuts.depth⟩
    exact (operand_carries idles stops carry written rule busy).bind
      fun left _ _ abuts => extend_carries idles stops carry abuts power levels left

theorem expressionWithin_carries (idles : Idles rest) (stops : Stops rest') (rounds : Nat) :
    AllCarry (σ := σ) (τ := τ) rest rest' (expressionWithin rounds) (expressionWithin rounds) := by
  induction rounds with
  | zero => exact fun _ _ _ _ => .of_error rfl
  | succ rounds ih =>
    exact fun power _ _ abuts => .restoringDepth abuts (chain_carries idles stops ih abuts power)

end ParserM

/-! ### Single expressions -/

/-- Sources with the same tokens up to a seam. -/
theorem Parser.abuts_ofSource {source : σ} {source' : τ} {front : List Token}
    (eq : TokenSource.tokens source = front ++ rest)
    (eq' : TokenSource.tokens source' = front ++ rest') :
    (Parser.ofSource Rules.standard source).Abuts rest rest'
      (Parser.ofSource Rules.standard source') :=
  ⟨rfl, rfl, ⟨front, eq, eq'⟩, Nat.le_refl _⟩

/-- A single expression is what is read of it, if that leads to the end of the source. -/
theorem parseExpression_of_expression {source : σ} {expr : Expr} {after : Parser σ}
    (ran : ParserM.expression .lowest (Parser.ofSource Rules.standard source) = .ok expr after) :
    (parseExpression source).result =
      if after.current.kind = .eof then .ok expr else .error after.current.trailing := by
  have sole : ParserM.soleExpression (Parser.ofSource Rules.standard source) =
      (if after.current.kind = .eof then pure expr else throw after.current.trailing :
        ParserM σ Expr) after := ParserM.bind_of_ok ran
  by_cases isEnd : after.current.kind = .eof
  · rw [if_pos isEnd]
    exact Parser.result_of_ok (sole.trans (by rw [if_pos isEnd]; rfl))
  · rw [if_neg isEnd]
    exact Parser.result_of_error (sole.trans (by rw [if_neg isEnd]; rfl))

/-- A single expression that is not read up to its end is not read at all. -/
theorem parseExpression_of_refused {source : σ} {diagnostic : Diagnostic} {after : Parser σ}
    (ran : ParserM.expression .lowest (Parser.ofSource Rules.standard source) =
      .error diagnostic after) : (parseExpression source).result = .error diagnostic :=
  Parser.result_of_error (ParserM.bind_of_error ran)

/-- Before a token that ends every expression and that no rule passes, an expression is read up to
this token if the tokens before it make a single expression. -/
theorem expression_before_iff {source : σ} {front : List Token}
    (eq : TokenSource.tokens source = front ++ rest)
    (before : ∀ token ∈ front, token.kind ≠ .eof) (idles : Idles rest) (stops : Stops rest) :
    (parseExpression (TokenStream.ofTokens front)).result.isOk ↔
      ∃ expr after, ParserM.expression .lowest (Parser.ofSource Rules.standard source) =
        .ok expr after ∧ after.tokens = rest := by
  have alone := TokenStream.tokens_ofTokens_of_ne_eof before
  have isEnd : (Token.endOfInput (TokenStream.endPosition front)).kind = .eof := rfl
  constructor
  · intro isOk
    cases ran : ParserM.expression .lowest
        (Parser.ofSource Rules.standard (TokenStream.ofTokens front)) with
    | error diagnostic after =>
      rw [parseExpression_of_refused ran] at isOk
      cases isOk
    | ok expr after =>
      rw [parseExpression_of_expression ran] at isOk
      split at isOk
      · next atEnd =>
        obtain ⟨-, after', ran', abuts⟩ := ParserM.expressionWithin_carries
          (Idles.of_kind isEnd (by decide) []) stops ParserM.levels .lowest _ _
          (Parser.abuts_ofSource alone eq) expr after ran
        have there : after.tokens.length ≤ 1 := by rw [after.tokens_of_kind_eof atEnd]; rfl
        exact ⟨expr, after', ran', (abuts.at_seam there).2⟩
      · cases isOk
  · rintro ⟨expr, after, ran, there⟩
    obtain ⟨-, after', ran', abuts⟩ := ParserM.expressionWithin_carries idles
      (Stops.of_kind isEnd (by decide) []) ParserM.levels .lowest _ _
      (Parser.abuts_ofSource eq alone) expr after ran
    have atEnd := after'.current_of_tokens (abuts.at_seam (Nat.le_of_eq (by rw [there]))).2
    rw [parseExpression_of_expression ran', if_pos (by rw [atEnd]; rfl)]
    rfl

end ExprCheck
