import ExprCheck.Proofs.Parser.Consultation
import ExprCheck.Proofs.Parser.Depth
import ExprCheck.Proofs.Parser.Progress

/-!
# Rules for tokens that do not occur

To give other rules to a kind of token changes nothing for sources in which the kind does not occur:

* `Rules.AgreeOn occurs rules new`: rules that say the same about every kind that occurs.
* `TokenSource.Shows occurs source`: only tokens of such kinds are ever current.
* `ParserM.Unmoved occurs new step`: under the new rules the step does what it does under the old
  ones, to a parser that shows only tokens on which they agree. It pervades the rules of the parser,
  so it holds of every expression (`expression_unmoved`).
* `Operation.Registers kind operation`: the operation gives a rule to a kind.
* `Parser.expression_after_registrations`: any registrations, behind any use of a parser.
-/

namespace ExprCheck

open TokenSource (Walk)

/-! ### Rules that agree on what occurs -/

/-- The new rules say what the rules say about every kind that occurs. -/
def Rules.AgreeOn (occurs : TokenKind → Prop) (rules new : Rules) : Prop :=
  ∀ kind, occurs kind →
    new.prefixRule? kind = rules.prefixRule? kind ∧ new.infixRule? kind = rules.infixRule? kind

variable {σ α β : Type} [TokenSource σ]

/-- Whatever is passed, the next token is of a kind that occurs. -/
def TokenSource.Shows (occurs : TokenKind → Prop) (source : σ) : Prop :=
  ∀ passed last, Walk passed source last → occurs (current last).kind

namespace TokenSource.Shows

variable {occurs : TokenKind → Prop} {source last : σ} {passed : List Token}

theorem current (h : Shows occurs source) : occurs (current source).kind :=
  h [] source (.stay source)

theorem walked (h : Shows occurs source) (walk : Walk passed source last) : Shows occurs last :=
  fun later end_ walk' => h (passed ++ later) end_ (walk.trans walk')

theorem advance (h : Shows occurs source) : Shows occurs (advance source) :=
  h.walked (.pass (.stay _))

end TokenSource.Shows

namespace Parser

/-- The parser under other rules. -/
def withRules (new : Rules) (parser : Parser σ) : Parser σ :=
  { parser with rules := new }

/-- Only tokens come up on which the rules of the parser and the new ones agree. -/
structure Untouched (occurs : TokenKind → Prop) (new : Rules) (parser : Parser σ) : Prop where
  agree : parser.rules.AgreeOn occurs new
  shows : TokenSource.Shows occurs parser.source

variable {occurs : TokenKind → Prop} {new : Rules} {parser : Parser σ}

theorem Untouched.passed (h : parser.Untouched occurs new) : parser.passed.Untouched occurs new :=
  ⟨h.agree, h.shows.advance⟩

/-- The new rules say about the current token what the rules of the parser say. -/
theorem Untouched.meaning (h : parser.Untouched occurs new) :
    (parser.withRules new).meaning = parser.meaning := by
  obtain ⟨samePrefix, sameInfix⟩ := h.agree _ h.shows.current
  exact congrArg₂ (Meaning.mk parser.current) samePrefix sameInfix

end Parser

/-! ### Steps that the new rules do not change -/

namespace ParserM

/-- The result of a step for a parser under other rules. -/
def resultWithRules (new : Rules) :
    EStateM.Result Diagnostic (Parser σ) α → EStateM.Result Diagnostic (Parser σ) α
  | .ok value after => .ok value (after.withRules new)
  | .error diagnostic after => .error diagnostic (after.withRules new)

/-- Under the new rules the step has the same result. Behind it the parser is as it was before: only
tokens come up on which the rules agree. -/
def Unmoved (occurs : TokenKind → Prop) (new : Rules) (step : ParserM σ α) : Prop :=
  ∀ parser, parser.Untouched occurs new →
    step (parser.withRules new) = resultWithRules new (step parser) ∧
      (left step parser).Untouched occurs new

variable {occurs : TokenKind → Prop} {new : Rules}

namespace Unmoved

theorem bind {step : ParserM σ β} {next : β → ParserM σ α} (h : Unmoved occurs new step)
    (h' : ∀ value, Unmoved occurs new (next value)) : Unmoved occurs new (step >>= next) := by
  intro parser untouched
  obtain ⟨same, still⟩ := h parser untouched
  rw [left_bind]
  cases ran : step parser with
  | ok value middle =>
    rw [bind_of_ok ran, bind_of_ok (same.trans (congrArg _ ran))]
    exact h' value middle (left_of_ok ran ▸ still)
  | error diagnostic middle =>
    rw [bind_of_error ran, bind_of_error (same.trans (congrArg _ ran))]
    exact ⟨rfl, left_of_error ran ▸ still⟩

theorem expect (kind : TokenKind) : Unmoved (σ := σ) occurs new (expect kind) := by
  intro parser untouched
  unfold left ParserM.expect
  by_cases found : parser.current.kind = kind
  · rw [if_pos found, if_pos (show (parser.withRules new).current.kind = kind from found)]
    exact ⟨rfl, untouched.passed⟩
  · rw [if_neg found, if_neg (show ¬ (parser.withRules new).current.kind = kind from found)]
    exact ⟨rfl, untouched⟩

theorem descend : Unmoved (σ := σ) occurs new descend := by
  intro parser untouched
  unfold left ParserM.descend
  by_cases deep : maxNestingDepth ≤ parser.depth
  · rw [if_pos deep, if_pos (show maxNestingDepth ≤ (parser.withRules new).depth from deep)]
    exact ⟨rfl, untouched⟩
  · rw [if_neg deep, if_neg (show ¬ maxNestingDepth ≤ (parser.withRules new).depth from deep)]
    exact ⟨rfl, untouched.agree, untouched.shows⟩

theorem restoringDepth {step : ParserM σ α} (h : Unmoved occurs new step) :
    Unmoved occurs new (restoringDepth step) := by
  intro parser untouched
  obtain ⟨same, still⟩ := h parser untouched
  rw [left_restoringDepth]
  refine ⟨?_, still.agree, still.shows⟩
  unfold ParserM.restoringDepth
  rw [same]
  cases step parser <;> rfl

/-- A step asks the rules about the current token, and there the new ones say the same. -/
theorem meaning : Unmoved (σ := σ) occurs new meaning := by
  intro parser untouched
  refine ⟨?_, untouched⟩
  unfold ParserM.meaning
  rw [untouched.meaning]
  rfl

theorem pervades : Pervades fun _ (step : ParserM σ _) => Unmoved occurs new step where
  pure _ _ untouched := ⟨rfl, untouched⟩
  throw _ _ untouched := ⟨rfl, untouched⟩
  bind := bind
  withRemaining h parser untouched := h _ parser untouched
  current _ untouched := ⟨rfl, untouched⟩
  advance _ untouched := ⟨rfl, untouched.passed⟩
  expect := expect
  meaning := meaning
  refuseDepth _ untouched := ⟨rfl, untouched⟩
  descend := descend
  write _ _ untouched := ⟨rfl, untouched.agree, untouched.shows⟩
  restoringDepth := restoringDepth

end Unmoved

/-- Expressions in which the new rules are about no token are read as under the old ones. -/
theorem expression_unmoved (power : BindingPower) :
    Unmoved (σ := σ) occurs new (expression power) :=
  Unmoved.pervades.expression power

end ParserM

open ParserM

/-! ### Registrations -/

/-- The operation gives a rule to a kind of token. -/
inductive Operation.Registers (kind : TokenKind) : Operation → Prop where
  | asPrefix (rule : PrefixRule) : Registers kind (.setPrefix kind rule)
  | asInfix (rule : InfixRule) : Registers kind (.setInfix kind rule)

variable {occurs : TokenKind → Prop}

/-- A rule for a kind that does not occur leaves what is said about those that do. -/
theorem Operation.Registers.left_step {operation : Operation} {kind : TokenKind}
    (h : operation.Registers kind) (unused : ¬ occurs kind) (parser : Parser σ) :
    ∃ new, left operation.step parser = parser.withRules new ∧ parser.rules.AgreeOn occurs new := by
  have other {kind'} (h' : occurs kind') : kind' ≠ kind := fun eq => unused (eq ▸ h')
  cases h with
  | asPrefix rule => exact ⟨_, rfl, fun _ h' => ⟨if_neg (other h'), rfl⟩⟩
  | asInfix rule => exact ⟨_, rfl, fun _ h' => ⟨rfl, if_neg (other h')⟩⟩

theorem Parser.after_registrations (registrations : List Operation)
    (unused : ∀ operation ∈ registrations, ∃ kind, operation.Registers kind ∧ ¬ occurs kind)
    (parser : Parser σ) :
    ∃ new, parser.after registrations = parser.withRules new ∧
      parser.rules.AgreeOn occurs new := by
  induction registrations generalizing parser with
  | nil => exact ⟨parser.rules, rfl, fun _ _ => ⟨rfl, rfl⟩⟩
  | cons operation registrations ih =>
    obtain ⟨⟨kind, registers, notOccurs⟩, later⟩ := List.forall_mem_cons.1 unused
    obtain ⟨first, eq, agree⟩ := registers.left_step notOccurs parser
    obtain ⟨last, eq', agree'⟩ := ih later (left operation.step parser)
    refine ⟨last, ?_, fun kind h => ?_⟩
    · rw [Parser.after, List.foldl_cons]
      rw [Parser.after] at eq'
      rw [eq', eq]
      rfl
    · rw [eq] at agree'
      exact ⟨(agree' kind h).1.trans (agree kind h).1, (agree' kind h).2.trans (agree kind h).2⟩

/-! ### Lists of tokens -/

namespace TokenStream

theorem mem_of_mem_rest {tokens : List Token} {token : Token} (h : token ∈ rest tokens) :
    token ∈ tokens := by
  unfold rest at h
  split at h
  · exact List.mem_cons_of_mem _ h
  · exact h

/-- A stream shows tokens that it holds. -/
theorem shows {stream : TokenStream} (h : ∀ token ∈ stream.tokens, occurs token.kind) :
    TokenSource.Shows occurs stream := by
  intro passed last walk
  induction walk with
  | stay stream => exact h _ (List.head_mem stream.tokens_ne_nil)
  | pass _ ih => exact ih fun token mem => h token (mem_of_mem_rest mem)

theorem mem_closed {tokens : List Token} {token : Token} (h : token ∈ closed tokens) :
    token ∈ tokens ∨ token.kind = .eof := by
  unfold closed at h
  split at h
  · exact .inl h
  · refine (List.mem_append.1 h).imp_right fun mem => ?_
    rw [List.mem_singleton.1 mem, Token.endOfInput_kind]

end TokenStream

/-- **Registrations for kinds that do not occur.** Wherever a parser has got to in some tokens, and
whatever its rules, its depth and its log are: after any registrations for kinds that are not among
the tokens, and not the end of the input, an expression is read with the same outcome, and the
parser behind it differs in its rules alone. -/
theorem Parser.expression_after_registrations {tokens passed : List Token}
    {parser : Parser TokenStream} (reached : Walk passed (TokenStream.ofTokens tokens) parser.source)
    {registrations : List Operation}
    (unused : ∀ operation ∈ registrations, ∃ kind, operation.Registers kind ∧ kind ≠ .eof ∧
      ∀ token ∈ tokens, token.kind ≠ kind)
    (power : BindingPower) :
    (parser.after registrations).outcome (expression power) =
        parser.outcome (expression power) ∧
      left (expression power) (parser.after registrations) =
        { left (expression power) parser with rules := (parser.after registrations).rules } := by
  let occurs (kind : TokenKind) : Prop := kind = .eof ∨ ∃ token ∈ tokens, token.kind = kind
  have shown : TokenSource.Shows occurs (TokenStream.ofTokens tokens) := by
    refine TokenStream.shows fun token mem => ?_
    exact (TokenStream.mem_closed mem).symm.imp_right fun mem => ⟨token, mem, rfl⟩
  have unused : ∀ operation ∈ registrations, ∃ kind, operation.Registers kind ∧ ¬ occurs kind := by
    intro operation mem
    obtain ⟨kind, registers, notEnd, unused⟩ := unused operation mem
    refine ⟨kind, registers, ?_⟩
    rintro (isEnd | ⟨token, mem, eq⟩)
    · exact notEnd isEnd
    · exact unused token mem eq
  obtain ⟨new, eq, agree⟩ := parser.after_registrations registrations unused
  obtain ⟨same, -⟩ := expression_unmoved power parser ⟨agree, shown.walked reached⟩
  rw [eq, outcome, left, same]
  unfold outcome left
  cases expression power parser <;> exact ⟨rfl, rfl⟩

/-- A parser that knows numbers and signs stands at the second of two signs. What it reads there
does not depend on whether stars are operators and brackets can be opened. -/
theorem Parser.expression_after_registrations_sign :
    ∃ (tokens : List Token) (parser : Parser TokenStream) (registrations : List Operation),
      parser.source = TokenSource.advance (TokenStream.ofTokens tokens) ∧
      registrations = [.setInfix .star ⟨.multiplicative, .left⟩, .setPrefix .openParen .group] ∧
      tokens.map Token.kind = [.dash, .dash, .integer] ∧
      (parser.after registrations).outcome (expression .lowest) =
        parser.outcome (expression .lowest) ∧
      (parser.outcome (expression .lowest)).result.isOk := by
  let place : Span := ⟨⟨0, "signs"⟩, ⟨1, "signs"⟩⟩
  let tokens : List Token := [⟨.dash, "-", place⟩, ⟨.dash, "-", place⟩, ⟨.integer, "1", place⟩]
  let rules : Rules := (Rules.none.setPrefix .integer .literal).setPrefix .dash .sign
  refine ⟨tokens, ⟨TokenSource.advance (TokenStream.ofTokens tokens), rules, 3, []⟩, _, rfl, rfl,
    rfl, (Parser.expression_after_registrations (.pass (.stay _)) ?_ .lowest).1, by decide +kernel⟩
  exact List.forall_mem_cons.2 ⟨⟨.star, .asInfix _, by decide, by decide⟩,
    List.forall_mem_singleton.2 ⟨.openParen, .asPrefix _, by decide, by decide⟩⟩

end ExprCheck
