import ExprCheck.Proofs.Log.Prefix
import ExprCheck.Proofs.Parser.Entry

/-!
# What reading writes to the log

An expression writes the token that it starts with, behind all that was written before it:

* `Parser.Recorded`: a parser that has logged what it has taken since some earlier moment, with the
  signs and bodies of what it has read since.
* `Parser.Announced`: a parser that has logged its current token and is about to take it.
* `ParserM.Records`: a step that adds to the record what it takes, and to the signs and bodies those
  of its tree. One lemma for each rule of the parser.
* `program_records`: all tokens of a program.
-/

namespace ExprCheck

/-! ### Parsers that have logged what they have taken -/

namespace Parser

variable {σ : Type} [TokenSource σ] {signs signs' : List Token} {bodies bodies' : List Position}
  {tokens : List Token} {log : List LogEntry} {parser before : Parser σ}

/-- A parser under the standard rules that was to read `tokens` when `log` was logged, and has since
logged those of the tokens taken that start expressions. -/
structure Recorded (signs : List Token) (bodies : List Position) (tokens : List Token)
    (log : List LogEntry) (parser : Parser σ) : Prop where
  rules : parser.rules = Rules.standard
  taken : ∃ taken, tokens = taken.map Taken.token ++ parser.tokens ∧
    parser.log = Taken.logged taken ++ log ∧ Accounts signs bodies taken

namespace Recorded

/-- The signs and bodies of a node are those at its root and those of the trees inside it. -/
theorem form {expr : Expr} (h : parser.Recorded signs' bodies' tokens log)
    (same : ∀ token, token ∈ signs ++ (expr.ownSign?.toList ++ expr.inner.flatMap Tree.signs) ↔
      token ∈ signs')
    (same' : ∀ position, position ∈ bodies ++ (expr.ownBodies ++ expr.inner.flatMap Tree.bodies) ↔
      position ∈ bodies') :
    parser.Recorded (signs ++ expr.signs) (bodies ++ expr.bodies) tokens log := by
  rw [Tree.signs_eq, Tree.bodies_eq]
  obtain ⟨taken, all, written, accounts⟩ := h.taken
  exact ⟨h.rules, taken, all, written, accounts.congr same same'⟩

/-- Behind the current token, if what it is taken as has been logged. -/
theorem passed (h : before.Recorded signs bodies tokens log) (starts : Bool)
    (rules : parser.rules = before.rules) (same : parser.tokens = before.tokens)
    (written : parser.log = Taken.logged [⟨parser.current, starts⟩] ++ before.log)
    (notEnd : parser.current.kind ≠ .eof)
    (accounts : Accounts signs' bodies' [⟨parser.current, starts⟩]) :
    parser.passed.Recorded (signs ++ signs') (bodies ++ bodies') tokens log := by
  obtain ⟨taken, all, written', accounts'⟩ := h.taken
  refine ⟨rules.trans h.rules, taken ++ [⟨parser.current, starts⟩], ?_, ?_,
    accounts'.append accounts⟩
  · rw [all, ← same, parser.tokens_of_ne_eof notEnd, List.map_append, List.append_assoc]
    rfl
  · rw [Taken.logged_append, List.append_assoc, ← written']
    exact written

/-- A token that starts no expression is taken without a word. -/
theorem skipped (h : parser.Recorded signs bodies tokens log)
    (skipped : parser.current.kind.IsSkipped) (notEnd : parser.current.kind ≠ .eof) :
    parser.passed.Recorded signs bodies tokens log := by
  have passed := h.passed false rfl rfl rfl notEnd (.skipped skipped)
  rwa [List.append_nil, List.append_nil] at passed

/-- The curly bracket before the body of a branch is taken without a word. -/
theorem body (h : parser.Recorded signs bodies tokens log)
    (isOpening : parser.current.kind = .openCurly) :
    parser.passed.Recorded signs (bodies ++ [parser.current.start]) tokens log := by
  have notEnd : parser.current.kind ≠ .eof := by rw [isOpening]; decide
  have passed := h.passed false rfl rfl rfl notEnd (.body isOpening)
  rwa [List.append_nil] at passed

end Recorded

/-- The current token has been logged as the start of an expression, and what was taken before it
has been logged too. -/
def Announced (signs : List Token) (bodies : List Position) (tokens : List Token)
    (log : List LogEntry) (parser : Parser σ) : Prop :=
  ∃ before : Parser σ, before.Recorded signs bodies tokens log ∧ parser.rules = before.rules ∧
    parser.tokens = before.tokens ∧
    parser.log = .operand parser.current.kind parser.current.start.offset :: before.log

namespace Announced

theorem passed (h : parser.Announced signs bodies tokens log) (notEnd : parser.current.kind ≠ .eof)
    (accounts : Accounts signs' bodies' [⟨parser.current, true⟩]) :
    parser.passed.Recorded (signs ++ signs') (bodies ++ bodies') tokens log := by
  obtain ⟨before, recorded, rules, same, written⟩ := h
  exact recorded.passed true rules same written notEnd accounts

/-- What is no sign is not looked for in the tree. -/
theorem passed_plain (h : parser.Announced signs bodies tokens log)
    (notEnd : parser.current.kind ≠ .eof) (accounts : Accounts [] [] [⟨parser.current, true⟩]) :
    parser.passed.Recorded signs bodies tokens log := by
  have passed := h.passed notEnd accounts
  rwa [List.append_nil, List.append_nil] at passed

end Announced

end Parser

namespace ParserM

open ExprCheck.Parser (Recorded Announced)

variable {σ : Type} [TokenSource σ] {signs : List Token} {bodies : List Position}
  {tokens : List Token} {log : List LogEntry} {parser : Parser σ}

/-- The step reads a tree and leaves a parser that has logged what it has taken, to which the signs
and the bodies of the tree were added. -/
def Records (signs : List Token) (bodies : List Position) (tokens : List Token)
    (log : List LogEntry) (step : ParserM σ Expr) (parser : Parser σ) : Prop :=
  Leads step (fun expr after =>
    after.Recorded (signs ++ expr.signs) (bodies ++ expr.bodies) tokens log) (fun _ _ => True) parser

/-- A reader of expressions that logs what it takes. -/
def AllRecord (nested : BindingPower → ParserM σ Expr) : Prop :=
  ∀ power parser signs bodies tokens log, parser.Recorded signs bodies tokens log →
    Records signs bodies tokens log (nested power) parser

variable {nested : BindingPower → ParserM σ Expr}

/-! ### Operands -/

theorem literal_records (announced : parser.Announced signs bodies tokens log)
    (rule : Rules.standardPrefix? parser.current.kind = some .literal) :
    Records signs bodies tokens log literal parser := by
  have isLiteral := isLiteral_of_prefixRule rule
  have start : parser.current.kind.startsAlways := by
    rw [TokenKind.startsAlways, isLiteral]
    rfl
  simp only [Records, literal, leads_bind, leads_current, if_pos isLiteral, leads_advance,
    leads_pure]
  exact announced.passed (ne_eof_of_prefixRule rule) (.start start)

theorem sign_records (inner : AllRecord nested)
    (announced : parser.Announced signs bodies tokens log)
    (rule : Rules.standardPrefix? parser.current.kind = some .sign) :
    Records signs bodies tokens log (sign nested) parser := by
  have isSign := isSign_of_prefixRule rule
  have passed := announced.passed (ne_eof_of_prefixRule rule) (.sign isSign)
  simp only [Records, sign, leads_bind, leads_rules, leads_advance, leads_pure]
  refine (inner _ _ _ _ _ _ passed).mono ?_ fun _ _ _ => trivial
  intro operand after recorded
  exact recorded.form (by simp [Tree.ownSign?, Tree.inner]) (by simp [Tree.ownBodies, Tree.inner])

theorem group_records (inner : AllRecord nested)
    (announced : parser.Announced signs bodies tokens log)
    (rule : Rules.standardPrefix? parser.current.kind = some .group) :
    Records signs bodies tokens log (group nested) parser := by
  have isOpening := isOpenParen_of_prefixRule rule
  have start : parser.current.kind.startsAlways := by rw [isOpening]; rfl
  have passed := announced.passed_plain (ne_eof_of_prefixRule rule) (.start start)
  simp only [Records, group, leads_bind, leads_advance, leads_expect, leads_pure]
  refine (inner _ _ _ _ _ _ passed).mono ?_ fun _ _ _ => trivial
  intro expr after recorded
  refine ⟨fun isClosing => ?_, fun _ => trivial⟩
  exact recorded.skipped (by rw [isClosing]; decide) (by rw [isClosing]; decide)

theorem itemsUntil_records (inner : AllRecord nested) (closing : TokenKind) (rounds : Nat)
    (recorded : parser.Recorded signs bodies tokens log) :
    Leads (itemsUntil nested closing rounds)
      (fun items after => after.Recorded (signs ++ items.flatMap Tree.signs)
        (bodies ++ items.flatMap Tree.bodies) tokens log) (fun _ _ => True) parser := by
  induction rounds generalizing parser signs bodies with
  | zero =>
    simp only [itemsUntil, leads_pure, List.flatMap_nil, List.append_nil]
    exact recorded
  | succ rounds ih =>
    simp only [itemsUntil, leads_bind, leads_current]
    split
    · simp only [leads_pure, List.flatMap_nil, List.append_nil]
      exact recorded
    · simp only [leads_bind, leads_pure]
      refine (inner _ _ _ _ _ _ recorded).mono ?_ fun _ _ _ => trivial
      intro item middle recorded
      refine (ih recorded).mono ?_ fun _ _ _ => trivial
      intro items after recorded
      simpa only [List.flatMap_cons, List.append_assoc] using recorded

/-- A block, from behind its opening bracket, which may or may not have been logged. -/
theorem block_records (inner : AllRecord nested)
    (opened : parser.current.kind = .openCurly → parser.passed.Recorded signs bodies tokens log) :
    Leads (block nested)
      (fun expr after => expr.isBlock ∧ expr.start = parser.current.start ∧
        after.Recorded (signs ++ expr.signs) (bodies ++ expr.bodies) tokens log)
      (fun _ _ => True) parser := by
  simp only [block, leads_bind, leads_expect, leads_withRemaining, leads_pure]
  refine ⟨fun isOpening => ?_, fun _ => trivial⟩
  refine (itemsUntil_records inner _ _ (opened isOpening)).mono ?_ fun _ _ _ => trivial
  intro items after recorded
  refine ⟨fun isClosing => ⟨rfl, rfl, ?_⟩, fun _ => trivial⟩
  have closed := recorded.skipped (by rw [isClosing]; decide) (by rw [isClosing]; decide)
  rwa [Tree.signs_eq, Tree.bodies_eq]

/-- The body of a branch starts with a bracket that is not logged. -/
theorem body_records (inner : AllRecord nested)
    (recorded : parser.Recorded signs bodies tokens log) :
    Leads (block nested)
      (fun expr after => expr.isBlock ∧
        after.Recorded (signs ++ expr.signs) (bodies ++ expr.start :: expr.bodies) tokens log)
      (fun _ _ => True) parser := by
  refine (block_records inner recorded.body).mono ?_ fun _ _ _ => trivial
  rintro expr after ⟨isBlock, start, recorded⟩
  rw [List.append_assoc, List.singleton_append, ← start] at recorded
  exact ⟨isBlock, recorded⟩

/-- A conditional, from behind its first word, which may or may not have been logged. -/
theorem branchWithin_records (inner : AllRecord nested) (rounds : Nat)
    (opened : parser.passed.Recorded signs bodies tokens log) :
    Leads (branchWithin nested rounds)
      (fun expr after => expr.isBlock = false ∧
        after.Recorded (signs ++ expr.signs) (bodies ++ expr.bodies) tokens log)
      (fun _ _ => True) parser := by
  induction rounds generalizing parser signs bodies with
  | zero => trivial
  | succ rounds ih =>
    simp only [branchWithin, leads_bind, leads_advance, leads_current]
    refine (inner _ _ _ _ _ _ opened).mono ?_ fun _ _ _ => trivial
    intro condition middle recorded
    refine (body_records inner recorded).mono ?_ fun _ _ _ => trivial
    rintro body after ⟨-, recorded⟩
    split
    · next isElsif =>
      simp only [leads_bind, leads_descend, leads_pure]
      refine ⟨fun _ => ?_, fun _ => trivial⟩
      have opened := recorded.skipped (by rw [isElsif]; decide) (by rw [isElsif]; decide)
      let deeper : Parser σ := { after with depth := after.depth + 1 }
      have opened : deeper.passed.Recorded _ _ tokens log := ⟨opened.rules, opened.taken⟩
      refine (ih opened).mono ?_ fun _ _ _ => trivial
      rintro otherwise last ⟨notBlock, recorded⟩
      exact ⟨rfl, recorded.form (by simp [Tree.ownSign?, Tree.inner])
        (by simp [Tree.ownBodies, Tree.inner, notBlock, or_left_comm])⟩
    · next isElse =>
      simp only [leads_bind, leads_advance, leads_pure]
      have opened := recorded.skipped (by rw [isElse]; decide) (by rw [isElse]; decide)
      refine (body_records inner opened).mono ?_ fun _ _ _ => trivial
      rintro otherwise last ⟨isBlock, recorded⟩
      exact ⟨rfl, recorded.form (by simp [Tree.ownSign?, Tree.inner])
        (by simp [Tree.ownBodies, Tree.inner, isBlock, or_left_comm])⟩
    · exact ⟨rfl, recorded.form (by simp [Tree.ownSign?, Tree.inner])
        (by simp [Tree.ownBodies, Tree.inner, or_left_comm])⟩

theorem operand_records (inner : AllRecord nested)
    (announced : parser.Announced signs bodies tokens log) {rule : PrefixRule}
    (found : Rules.standardPrefix? parser.current.kind = some rule) :
    Records signs bodies tokens log (operand nested rule) parser := by
  have notEnd := ne_eof_of_prefixRule found
  cases rule with
  | literal => exact literal_records announced found
  | sign => exact sign_records inner announced found
  | group => exact group_records inner announced found
  | block =>
    have opened : parser.current.kind = .openCurly →
        parser.passed.Recorded signs bodies tokens log := fun isOpening =>
      announced.passed_plain notEnd (.opening isOpening)
    exact (block_records inner opened).mono (fun _ _ done => done.2.2) fun _ _ _ => trivial
  | branch =>
    have start : parser.current.kind.startsAlways := by rw [isIf_of_prefixRule found]; rfl
    have opened := announced.passed_plain notEnd (.start start)
    exact (branchWithin_records inner levels opened).mono (fun _ _ done => done.2)
      fun _ _ _ => trivial
  | misplaced => trivial

/-! ### Operators and expressions -/

theorem isSkipped_of_infixRule {kind : TokenKind} {rule : InfixRule}
    (h : Rules.standardInfix? kind = some rule) : kind.IsSkipped := by
  cases kind <;> first | decide | cases h

theorem extend_records (inner : AllRecord nested) (power : BindingPower) (rounds : Nat)
    {left : Expr}
    (recorded : parser.Recorded (signs ++ left.signs) (bodies ++ left.bodies) tokens log) :
    Records signs bodies tokens log (extend nested power rounds left) parser := by
  induction rounds generalizing parser left with
  | zero => trivial
  | succ rounds ih =>
    simp only [Records, extend, leads_bind, leads_rules, leads_current, recorded.rules]
    split
    · exact recorded
    · next rule found =>
      split
      · simp only [application, leads_bind, leads_descend, leads_advance, leads_pure]
        refine ⟨fun _ => ?_, fun _ => trivial⟩
        let deeper : Parser σ := { parser with depth := parser.depth + 1 }
        have passed := recorded.skipped (isSkipped_of_infixRule found) (ne_eof_of_infixRule found)
        refine (inner rule.operandPower deeper.passed _ _ _ _ ⟨passed.rules, passed.taken⟩).mono ?_
          fun _ _ _ => trivial
        intro right middle recorded
        exact ih (recorded.form (by simp [Tree.ownSign?, Tree.inner])
          (by simp [Tree.ownBodies, Tree.inner]))
      · exact recorded

theorem chain_records (inner : AllRecord nested) (power : BindingPower)
    (recorded : parser.Recorded signs bodies tokens log) :
    Records signs bodies tokens log (chain nested power) parser := by
  simp only [Records, chain, leads_bind, leads_rules, leads_current, recorded.rules]
  split
  · trivial
  · next rule found =>
    simp only [leads_bind, leads_descend, leads_write]
    refine ⟨fun _ => ?_, fun _ => trivial⟩
    let deeper : Parser σ :=
      { parser with
        depth := parser.depth + 1
        log := .operand parser.current.kind parser.current.start.offset :: parser.log }
    have announced : deeper.Announced signs bodies tokens log := ⟨parser, recorded, rfl, rfl, rfl⟩
    refine (operand_records inner announced found).mono ?_ fun _ _ _ => trivial
    exact fun left middle recorded => extend_records inner power levels recorded

theorem expressionWithin_records (rounds : Nat) :
    AllRecord (σ := σ) (expressionWithin rounds) := by
  induction rounds with
  | zero => exact fun _ _ _ _ _ _ _ => trivial
  | succ rounds ih =>
    intro power parser signs bodies tokens log recorded
    simp only [Records, expressionWithin, leads_restoringDepth]
    exact (chain_records ih power recorded).mono
      (fun _ _ recorded => ⟨recorded.rules, recorded.taken⟩) fun _ _ _ => trivial

/-! ### Programs -/

/-- What a program leaves in the log of a fresh parser, and the tokens that it has taken. -/
theorem program_records (source : σ) :
    Leads program
      (fun expr after => ∃ items span taken last, expr = .block () items span ∧
        TokenSource.tokens source = taken.map Taken.token ++ [last] ∧ last.kind = .eof ∧
        after.log = .program items.length :: Taken.logged taken ∧
        Accounts expr.signs expr.bodies taken)
      (fun _ _ => True) (Parser.ofSource Rules.standard source) := by
  have fresh : (Parser.ofSource Rules.standard source).Recorded [] []
      (TokenSource.tokens source) [] := ⟨rfl, [], rfl, rfl, .nil⟩
  simp only [program, leads_bind, leads_current, leads_withRemaining, leads_write, leads_pure]
  have reliable := expressionWithin_reliable (σ := σ) levels 0 (Nat.le_refl _)
  refine ((itemsUntil_leads reliable _ (Nat.zero_le _) rfl (length_tokens_le_remaining _)).and
    (itemsUntil_records (expressionWithin_records levels) .eof _ fresh)).mono ?_
    fun _ _ _ => trivial
  rintro items after ⟨⟨-, -, ends⟩, recorded⟩
  have isEnd : after.current.kind = .eof := ends.elim id id
  obtain ⟨taken, all, written, accounts⟩ := recorded.taken
  refine ⟨items, _, taken, after.current, rfl, ?_, isEnd, ?_, ?_⟩
  · rw [all, after.tokens_of_kind_eof isEnd]
  · rw [written, List.append_nil]
  · rwa [Tree.signs_eq, Tree.bodies_eq]

end ParserM

end ExprCheck
