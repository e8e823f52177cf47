import ExprCheck.Proofs.Grammar.Derivation
import ExprCheck.Proofs.Parser.Soundness

/-!
# Where the parser refuses

A step that fails reports the current token, which it has not passed, and the tokens before that one
could have been continued:

* `Grammar.Viable symbol kinds`: something that starts with `kinds` can be derived from `symbol`.
* `Grammar.Opens symbol tokens rest`: the tokens before the rest are viable. There is one lemma for
  each construct that can be open, and it says how the construct is completed.
* `ParserM.Refuses`: every report of a step is at the start of the current token, and the tokens
  that were taken are viable.
* `program_refuses`, `soleExpression_refuses`: this holds of whole sources.

There is one lemma for each rule of the parser. What a step has read when it succeeds is taken from
`ParserM.Meets`, so that here only the failures are followed.
-/

namespace ExprCheck

namespace Grammar

/-! ### Texts that can be continued -/

/-- Something that starts with these kinds can be derived. -/
def Viable (symbol : Symbol) (kinds : List TokenKind) : Prop :=
  ∃ more, Derives symbol (kinds ++ more)

theorem derives_emptyBlock : Derives .block [.openCurly, .closeCurly] :=
  .block .emptyProgram

theorem derives_one : Derives .expression [.integer] :=
  .expression_of_primary (.literal rfl)

/-- Every symbol has a derivation. -/
theorem viable_nil (symbol : Symbol) : Viable symbol [] := by
  cases symbol with
  | program => exact ⟨_, .emptyProgram⟩
  | expression => exact ⟨_, derives_one⟩
  | operations => exact ⟨_, .noOperation⟩
  | operand => exact ⟨_, .primaryOperand (.literal (show TokenKind.integer.isLiteral from rfl))⟩
  | primary => exact ⟨_, .literal (show TokenKind.integer.isLiteral from rfl)⟩
  | block => exact ⟨_, derives_emptyBlock⟩
  | chain => exact ⟨_, .chain derives_one derives_emptyBlock .noContinuation⟩
  | continuation => exact ⟨_, .noContinuation⟩

/-- The tokens before the rest can be continued. -/
def Opens (symbol : Symbol) (tokens rest : List Token) : Prop :=
  ∃ taken, tokens = taken ++ rest ∧ Viable symbol (taken.map Token.kind)

/-- Nothing has been taken yet. -/
theorem Opens.start (symbol : Symbol) (tokens : List Token) : Opens symbol tokens tokens :=
  ⟨[], rfl, viable_nil symbol⟩

variable {symbol symbol' symbol'' : Symbol} {first : Token} {tokens middle later rest : List Token}

/-- What can be derived can be continued, by nothing. -/
theorem Covers.opens (h : Covers symbol tokens rest) : Opens symbol tokens rest := by
  obtain ⟨taken, eq, derives⟩ := h
  exact ⟨taken, eq, [], by rwa [List.append_nil]⟩

/-- A symbol that is open at the end of another, behind what has been read. -/
theorem Covers.opens_append (h : Covers symbol tokens middle) (h' : Opens symbol' middle rest)
    (joins : ∀ {kinds kinds'}, Derives symbol kinds → Derives symbol' kinds' →
      ∃ more, Derives symbol'' (kinds ++ (kinds' ++ more))) : Opens symbol'' tokens rest := by
  obtain ⟨taken, rfl, derives⟩ := h
  obtain ⟨taken', rfl, more, derives'⟩ := h'
  obtain ⟨more', whole⟩ := joins derives derives'
  refine ⟨taken ++ taken', (List.append_assoc ..).symm, more ++ more', ?_⟩
  rw [List.map_append]
  simpa only [List.append_assoc] using whole

/-- A symbol that is open in another, behind a token. -/
theorem Opens.cons (h : Opens symbol tokens rest)
    (grows : ∀ {kinds}, Derives symbol kinds →
      ∃ more, Derives symbol' (first.kind :: (kinds ++ more))) :
    Opens symbol' (first :: tokens) rest := by
  obtain ⟨taken, rfl, more, derives⟩ := h
  obtain ⟨more', whole⟩ := grows derives
  refine ⟨first :: taken, rfl, more ++ more', ?_⟩
  simpa only [List.map_cons, List.cons_append, List.append_assoc] using whole

theorem Opens.mono (h : Opens symbol tokens rest)
    (wider : ∀ {kinds}, Derives symbol kinds → Derives symbol' kinds) :
    Opens symbol' tokens rest := by
  obtain ⟨taken, eq, more, derives⟩ := h
  exact ⟨taken, eq, more, wider derives⟩

/-! ### What can be open -/

theorem Opens.sign (isSign : first.kind = .plus ∨ first.kind = .dash)
    (h : Opens .expression tokens rest) : Opens .expression (first :: tokens) rest := by
  refine h.cons fun derives => ⟨[], ?_⟩
  rw [List.append_nil]
  exact derives.sign_expression isSign

theorem Opens.group (isOpening : first.kind = .openParen) (h : Opens .expression tokens rest) :
    Opens .expression (first :: tokens) rest := by
  refine h.cons fun derives => ⟨[.closeParen], ?_⟩
  rw [isOpening]
  exact .expression_of_primary (.group derives)

theorem Opens.block (isOpening : first.kind = .openCurly) (h : Opens .program tokens rest) :
    Opens .block (first :: tokens) rest := by
  refine h.cons fun derives => ⟨[.closeCurly], ?_⟩
  rw [isOpening]
  exact .block derives

theorem Derives.program_of_expression {kinds : List TokenKind} (h : Derives .expression kinds) :
    Derives .program kinds := by
  rw [← List.append_nil kinds]
  exact .program h .emptyProgram

/-- One more expression of a program. -/
theorem Opens.item (h : Opens .expression tokens rest) : Opens .program tokens rest :=
  h.mono Derives.program_of_expression

theorem Covers.opens_items (h : Covers .expression tokens middle)
    (h' : Opens .program middle rest) : Opens .program tokens rest := by
  refine h.opens_append h' fun derives derives' => ⟨[], ?_⟩
  rw [List.append_nil]
  exact .program derives derives'

theorem Opens.operation (mem : first.kind ∈ Rules.binaryOperators)
    (h : Opens .expression tokens rest) : Opens .operations (first :: tokens) rest := by
  refine h.cons fun derives => ⟨[], ?_⟩
  rw [List.append_nil]
  exact derives.operation_expression mem

theorem Covers.opens_operations (h : Covers .operations tokens middle)
    (h' : Opens .operations middle rest) : Opens .operations tokens rest := by
  refine h.opens_append h' fun derives derives' => ⟨[], ?_⟩
  rw [List.append_nil]
  exact derives.operations_append derives'

theorem Covers.opens_expression (h : Covers .expression tokens middle)
    (h' : Opens .operations middle rest) : Opens .expression tokens rest := by
  refine h.opens_append h' fun derives derives' => ⟨[], ?_⟩
  rw [List.append_nil]
  exact derives.expression_append derives'

/-! ### Conditionals -/

/-- What a word that a condition follows is the beginning of. -/
def branchSymbol (word : TokenKind) : Symbol :=
  if word = .ifWord then .chain else .continuation

/-- A word that starts a conditional or continues it by another condition. -/
def IsBranchWord (word : TokenKind) : Prop :=
  word = .ifWord ∨ word = .elsifWord

theorem IsBranchWord.ne_eof {word : TokenKind} (h : IsBranchWord word) : word ≠ .eof := by
  rcases h with rfl | rfl <;> decide

theorem Derives.branch {word : TokenKind} (isWord : IsBranchWord word)
    {condition body more : List TokenKind} (h : Derives .expression condition)
    (h' : Derives .block body) (h'' : Derives .continuation more) :
    Derives (branchSymbol word) (word :: (condition ++ (body ++ more))) := by
  rcases isWord with rfl | rfl
  · exact .chain h h' h''
  · exact .elsifBranch h h' h''

theorem Opens.condition (isWord : IsBranchWord first.kind) (h : Opens .expression tokens rest) :
    Opens (branchSymbol first.kind) (first :: tokens) rest :=
  h.cons fun derives => ⟨_, .branch isWord derives derives_emptyBlock .noContinuation⟩

theorem Opens.body (isWord : IsBranchWord first.kind) (condition : Covers .expression tokens middle)
    (h : Opens .block middle rest) : Opens (branchSymbol first.kind) (first :: tokens) rest := by
  obtain ⟨taken, rfl, derives⟩ := condition
  obtain ⟨taken', rfl, more, derives'⟩ := h
  refine ⟨first :: (taken ++ taken'), by simp, more, ?_⟩
  have whole := Derives.branch isWord derives derives' .noContinuation
  simpa using whole

theorem Opens.elseBranch (isElse : first.kind = .elseWord) (h : Opens .block tokens rest) :
    Opens .continuation (first :: tokens) rest := by
  refine h.cons fun derives => ⟨[], ?_⟩
  rw [List.append_nil, isElse]
  exact .elseBranch derives

theorem Opens.continuation (isWord : IsBranchWord first.kind)
    (condition : Covers .expression tokens middle) (body : Covers .block middle later)
    (h : Opens .continuation later rest) :
    Opens (branchSymbol first.kind) (first :: tokens) rest := by
  obtain ⟨taken, rfl, derives⟩ := condition
  obtain ⟨taken', rfl, derives'⟩ := body
  obtain ⟨taken'', rfl, more, derives''⟩ := h
  refine ⟨first :: (taken ++ (taken' ++ taken'')), by simp, more, ?_⟩
  have whole := Derives.branch isWord derives derives' derives''
  simpa using whole

end Grammar

open Grammar

namespace ParserM

open ExprCheck.Parser (Reaches)

variable {σ α : Type} [TokenSource σ]

/-- A report at the current token, behind tokens that can be continued. -/
def RefusedAt (symbol : Symbol) (before : Parser σ) (diagnostic : Diagnostic)
    (after : Parser σ) : Prop :=
  diagnostic.position = after.current.start ∧ Opens symbol before.tokens after.tokens

/-- Every report of a step is at the token that it got to, behind tokens that can be continued. -/
def Refuses (symbol : Symbol) (step : ParserM σ α) (parser : Parser σ) : Prop :=
  Leads step (fun _ _ => True) (RefusedAt symbol parser) parser

/-- A reader of expressions that refuses so from some depth on. -/
def Refusing (nested : BindingPower → ParserM σ Expr) (depth : Nat) : Prop :=
  ∀ power parser, parser.rules = Rules.standard → depth ≤ parser.depth →
    Refuses .expression (nested power) parser

variable {nested : BindingPower → ParserM σ Expr} {depth : Nat} {parser : Parser σ}

/-- A report before anything has been taken. -/
theorem RefusedAt.here (symbol : Symbol) {diagnostic : Diagnostic}
    (h : diagnostic.position = parser.current.start) :
    RefusedAt symbol parser diagnostic parser :=
  ⟨h, .start symbol _⟩

/-- A report behind something that opens more than what the report is about. -/
theorem RefusedAt.within {symbol symbol' : Symbol} {before middle after : Parser σ}
    {diagnostic : Diagnostic} (refused : RefusedAt symbol middle diagnostic after)
    (grows : ∀ {rest}, Opens symbol middle.tokens rest → Opens symbol' before.tokens rest) :
    RefusedAt symbol' before diagnostic after :=
  ⟨refused.1, grows refused.2⟩

/-- A report behind one token. -/
theorem RefusedAt.behind {symbol symbol' : Symbol} {after : Parser σ} {diagnostic : Diagnostic}
    (refused : RefusedAt symbol parser.passed diagnostic after)
    (notEnd : parser.current.kind ≠ .eof)
    (grows : ∀ {tokens rest}, Opens symbol tokens rest →
      Opens symbol' (parser.current :: tokens) rest) : RefusedAt symbol' parser diagnostic after :=
  refused.within fun opens => by
    rw [parser.tokens_of_ne_eof notEnd]
    exact grows opens

/-- A step that begins behind something that opens more. -/
theorem Refuses.within {symbol symbol' : Symbol} {step : ParserM σ α} {middle : Parser σ}
    (refuses : Refuses symbol step middle)
    (grows : ∀ {rest}, Opens symbol middle.tokens rest → Opens symbol' parser.tokens rest) :
    Leads step (fun _ _ => True) (RefusedAt symbol' parser) middle :=
  refuses.mono (fun _ _ _ => trivial) fun _ _ refused => refused.within grows

/-- A step that begins behind one token. -/
theorem Refuses.behind {symbol symbol' : Symbol} {step : ParserM σ α}
    (refuses : Refuses symbol step parser.passed) (notEnd : parser.current.kind ≠ .eof)
    (grows : ∀ {tokens rest}, Opens symbol tokens rest →
      Opens symbol' (parser.current :: tokens) rest) :
    Leads step (fun _ _ => True) (RefusedAt symbol' parser) parser.passed :=
  refuses.mono (fun _ _ _ => trivial) fun _ _ refused => refused.behind notEnd grows

/-- What a step reads if it succeeds and where it is if it fails. -/
theorem Refuses.meets {symbol : Symbol} {charge : Nat} {phrase : Phrase} {step : ParserM σ Expr}
    (refuses : Refuses symbol step parser) (meets : Meets charge phrase step parser) :
    Leads step
      (fun expr after => Reads phrase parser.tokens expr after.tokens ∧ Reaches charge parser after)
      (RefusedAt symbol parser) parser :=
  (meets.and refuses).mono (fun _ _ both => both.1) fun _ _ both => both.2

/-! ### Operands -/

theorem literal_refuses (rule : Rules.standardPrefix? parser.current.kind = some .literal) :
    Refuses .expression literal parser := by
  simp only [Refuses, literal, leads_bind, leads_current, if_pos (isLiteral_of_prefixRule rule),
    leads_advance, leads_pure]

theorem sign_refuses (refusing : Refusing nested depth) (deep : depth ≤ parser.depth)
    (standard : parser.rules = Rules.standard)
    (rule : Rules.standardPrefix? parser.current.kind = some .sign) :
    Refuses .expression (sign nested) parser := by
  have isSign := isSign_of_prefixRule rule
  have notEnd := ne_eof_of_prefixRule rule
  simp only [Refuses, sign, leads_bind, leads_rules, leads_advance, leads_pure, standard,
    powerOf_sign isSign]
  exact (refusing .additive parser.passed standard deep).behind notEnd (Opens.sign isSign)

theorem group_refuses (refusing : Refusing nested depth) (reliable : Reliable nested depth)
    (deep : depth ≤ parser.depth) (standard : parser.rules = Rules.standard)
    (rule : Rules.standardPrefix? parser.current.kind = some .group) :
    Refuses .expression (group nested) parser := by
  have isOpening := isOpenParen_of_prefixRule rule
  have notEnd := ne_eof_of_prefixRule rule
  have inside := (refusing .lowest parser.passed standard deep).meets
    (reliable .lowest parser.passed standard deep)
  simp only [Refuses, group, leads_bind, leads_advance, leads_expect, leads_pure]
  refine inside.mono ?_ ?_
  · intro inner after found
    obtain ⟨reads, -⟩ := found
    have unclosed : Opens .expression parser.passed.tokens after.tokens :=
      Grammar.Covers.opens reads.covered
    exact ⟨fun _ => trivial, fun _ =>
      RefusedAt.behind ⟨rfl, unclosed⟩ notEnd (Opens.group isOpening)⟩
  · intro diagnostic after refused
    exact refused.behind notEnd (Opens.group isOpening)

/-- A row of expressions. -/
theorem itemsUntil_refuses (refusing : Refusing nested depth) (reliable : Reliable nested depth)
    (parser : Parser σ) {closing : TokenKind} {rounds : Nat} (deep : depth ≤ parser.depth)
    (standard : parser.rules = Rules.standard) :
    Refuses .program (itemsUntil nested closing rounds) parser := by
  induction rounds generalizing parser with
  | zero => trivial
  | succ rounds ih =>
    simp only [Refuses, itemsUntil, leads_bind, leads_current]
    split
    · trivial
    · simp only [leads_bind, leads_pure]
      refine ((refusing .lowest parser standard deep).meets
        (reliable .lowest parser standard deep)).mono ?_ ?_
      · intro item middle found
        obtain ⟨reads, reached⟩ := found
        exact (ih middle (Nat.le_trans deep reached.depth) reached.rules).within
          (Grammar.Covers.opens_items reads.covered)
      · intro diagnostic after refused
        exact refused.within Opens.item

theorem block_refuses (refusing : Refusing nested depth) (reliable : Reliable nested depth)
    (parser : Parser σ) (deep : depth ≤ parser.depth) (standard : parser.rules = Rules.standard) :
    Refuses .block (block nested) parser := by
  simp only [Refuses, block, leads_bind, leads_expect, leads_withRemaining, leads_pure]
  refine ⟨fun isOpening => ?_, fun _ => .here .block rfl⟩
  have notEnd : parser.current.kind ≠ .eof := by rw [isOpening]; decide
  refine ((itemsUntil_leads reliable parser.passed deep standard
    (length_tokens_le_remaining parser.passed)).and
    (itemsUntil_refuses refusing reliable parser.passed deep standard)).mono ?_ ?_
  · intro items after found
    obtain ⟨⟨row, -⟩, -⟩ := found
    have unclosed : Opens .program parser.passed.tokens after.tokens :=
      (Reads.row_covered row fun _ _ _ reads => reads.covered).opens
    exact ⟨fun _ => trivial, fun _ =>
      RefusedAt.behind ⟨rfl, unclosed⟩ notEnd (Opens.block isOpening)⟩
  · intro diagnostic after refused
    exact refused.2.behind notEnd (Opens.block isOpening)

/-- The continuation of a conditional by another condition. -/
theorem elsif_refuses {rounds : Nat} {finish : Expr → Expr}
    (nestedBranch : ∀ deeper : Parser σ, depth ≤ deeper.depth → deeper.rules = Rules.standard →
      IsBranchWord deeper.current.kind →
      Refuses (branchSymbol deeper.current.kind) (branchWithin nested rounds) deeper)
    (deep : depth ≤ parser.depth) (standard : parser.rules = Rules.standard)
    (isElsif : parser.current.kind = .elsifWord) :
    Refuses .continuation (do
      descend
      let otherwise ← branchWithin nested rounds
      return finish otherwise) parser := by
  simp only [Refuses, leads_bind, leads_descend, leads_pure]
  refine ⟨fun _ => ?_, fun _ => .here _ rfl⟩
  let deeper : Parser σ := { parser with depth := parser.depth + 1 }
  have isElsif : deeper.current.kind = .elsifWord := isElsif
  have refuses := nestedBranch deeper (Nat.le_succ_of_le deep) standard (.inr isElsif)
  rw [isElsif] at refuses
  exact refuses

/-- The continuation of a conditional by its other branch. -/
theorem else_refuses (refusing : Refusing nested depth) (reliable : Reliable nested depth)
    {finish : Expr → Expr} (deep : depth ≤ parser.depth) (standard : parser.rules = Rules.standard)
    (isElse : parser.current.kind = .elseWord) :
    Refuses .continuation (do
      let _ ← advance
      let otherwise ← block nested
      return finish otherwise) parser := by
  have notEnd : parser.current.kind ≠ .eof := by rw [isElse]; decide
  simp only [Refuses, leads_bind, leads_advance, leads_pure]
  exact (block_refuses refusing reliable parser.passed deep standard).behind notEnd
    (Opens.elseBranch isElse)

/-- A conditional, from its first word or from a word that continues it. -/
theorem branchWithin_refuses (refusing : Refusing nested depth) (reliable : Reliable nested depth)
    (parser : Parser σ) {rounds : Nat} (deep : depth ≤ parser.depth)
    (standard : parser.rules = Rules.standard) (isWord : IsBranchWord parser.current.kind) :
    Refuses (branchSymbol parser.current.kind) (branchWithin nested rounds) parser := by
  induction rounds generalizing parser with
  | zero => exact .here _ rfl
  | succ rounds ih =>
    have notEnd : parser.current.kind ≠ .eof := isWord.ne_eof
    simp only [Refuses, branchWithin, leads_bind, leads_advance, leads_current]
    refine ((refusing .lowest parser.passed standard deep).meets
      (reliable .lowest parser.passed standard deep)).mono ?_ ?_
    · intro condition middle found
      obtain ⟨first, reached⟩ := found
      have deep' := Nat.le_trans deep reached.depth
      refine ((block_refuses refusing reliable middle deep' reached.rules).meets
        (block_meets reliable middle deep' reached.rules)).mono ?_ ?_
      · intro body after found
        obtain ⟨second, reached'⟩ := found
        have deep'' := Nat.le_trans deep' reached'.depth
        have grows : ∀ {rest}, Opens .continuation after.tokens rest →
            Opens (branchSymbol parser.current.kind) parser.tokens rest := by
          intro rest opens
          rw [parser.tokens_of_ne_eof notEnd]
          exact .continuation isWord first.covered second.covered opens
        split
        · next isElsif => exact (elsif_refuses ih deep'' reached'.rules isElsif).within grows
        · next isElse =>
          exact (else_refuses refusing reliable deep'' reached'.rules isElse).within grows
        · trivial
      · intro diagnostic after refused
        refine refused.within fun opens => ?_
        rw [parser.tokens_of_ne_eof notEnd]
        exact .body isWord first.covered opens
    · intro diagnostic after refused
      exact refused.behind notEnd (Opens.condition isWord)

/-- An operand, read by the rule of its first token. -/
theorem operand_refuses (refusing : Refusing nested depth) (reliable : Reliable nested depth)
    (deep : depth ≤ parser.depth) (standard : parser.rules = Rules.standard) {rule : PrefixRule}
    (found : Rules.standardPrefix? parser.current.kind = some rule) :
    Refuses .expression (operand nested rule) parser := by
  cases rule with
  | literal => exact literal_refuses found
  | sign => exact sign_refuses refusing deep standard found
  | group => exact group_refuses refusing reliable deep standard found
  | block =>
    exact (block_refuses refusing reliable parser deep standard).within fun opens =>
      opens.mono fun derives => .expression_of_primary (.blockPrimary derives)
  | branch =>
    have isIf := isIf_of_prefixRule found
    refine (branchWithin_refuses refusing reliable parser deep standard (.inl isIf)).within
      fun opens => ?_
    rw [show branchSymbol parser.current.kind = .chain by rw [isIf]; rfl] at opens
    exact opens.mono fun derives => .expression_of_primary (.chainPrimary derives)
  | misplaced => exact .here _ rfl

/-! ### Operators and expressions -/

theorem extend_refuses (refusing : Refusing nested depth) (reliable : Reliable nested depth)
    (parser : Parser σ) (power : BindingPower) {rounds : Nat} {left : Expr}
    (deep : depth ≤ parser.depth) (standard : parser.rules = Rules.standard) :
    Refuses .operations (extend nested power rounds left) parser := by
  induction rounds generalizing parser left with
  | zero => exact .here _ rfl
  | succ rounds ih =>
    simp only [Refuses, extend, leads_bind, leads_rules, leads_current, standard]
    split
    · trivial
    · next rule found =>
      have found : Rules.standardInfix? parser.current.kind = some rule := found
      have notEnd := ne_eof_of_infixRule found
      have mem : parser.current.kind ∈ Rules.binaryOperators :=
        (Rules.mem_binaryOperators_iff _).2 (by rw [found]; rfl)
      split
      · simp only [leads_bind, leads_descend, application, leads_advance, leads_pure]
        refine ⟨fun _ => ?_, fun _ => .here _ rfl⟩
        let deeper : Parser σ := { parser with depth := parser.depth + 1 }
        have deep' : depth ≤ deeper.depth := Nat.le_succ_of_le deep
        refine ((refusing rule.operandPower deeper.passed standard deep').meets
          (reliable rule.operandPower deeper.passed standard deep')).mono ?_ ?_
        · intro right middle found
          obtain ⟨reads, reached⟩ := found
          refine (ih middle (Nat.le_trans deep' reached.depth) reached.rules).within
            fun opens => ?_
          rw [parser.tokens_of_ne_eof notEnd]
          have operation : Grammar.Covers .operations
              (parser.current :: deeper.passed.tokens) middle.tokens :=
            Grammar.Covers.cons reads.covered (Derives.operation_expression mem)
          exact operation.opens_operations opens
        · intro diagnostic after refused
          have refused : RefusedAt .expression parser.passed diagnostic after := refused
          exact refused.behind notEnd (Opens.operation mem)
      · trivial

theorem chain_refuses (refusing : Refusing nested (depth + 1))
    (reliable : Reliable nested (depth + 1)) {power : BindingPower} (deep : depth ≤ parser.depth)
    (standard : parser.rules = Rules.standard) :
    Refuses .expression (chain nested power) parser := by
  simp only [Refuses, chain, leads_bind, leads_rules, leads_current, standard]
  split
  · exact .here _ rfl
  · next rule found =>
    have found : Rules.standardPrefix? parser.current.kind = some rule := found
    simp only [leads_bind, leads_descend, leads_write]
    refine ⟨fun _ => ?_, fun _ => .here _ rfl⟩
    let deeper : Parser σ :=
      { parser with
        depth := parser.depth + 1
        log := .operand parser.current.kind parser.current.start.offset :: parser.log }
    have deep' : depth + 1 ≤ deeper.depth := Nat.succ_le_succ deep
    refine ((operand_refuses refusing reliable deep' standard found).meets
      (operand_meets reliable deeper deep' (Nat.succ_pos _) standard found)).mono ?_ ?_
    · intro left middle found
      obtain ⟨reads, reached⟩ := found
      exact (extend_refuses refusing reliable middle power (Nat.le_trans deep' reached.depth)
        reached.rules).within (Grammar.Covers.opens_expression reads.covered)
    · exact fun _ _ refused => refused

theorem expressionWithin_refusing (rounds depth : Nat) (enough : levels ≤ rounds + depth) :
    Refusing (σ := σ) (expressionWithin rounds) depth := by
  induction rounds generalizing depth with
  | zero => exact fun _ _ _ _ => .here _ rfl
  | succ rounds ih =>
    intro power parser standard deep
    have enough' : levels ≤ rounds + (depth + 1) := by omega
    simp only [Refuses, expressionWithin, leads_restoringDepth]
    exact chain_refuses (ih (depth + 1) enough') (expressionWithin_reliable rounds _ enough') deep
      standard

/-! ### Whole sources -/

theorem program_refuses (standard : parser.rules = Rules.standard) :
    Refuses .program program parser := by
  simp only [Refuses, program, leads_bind, leads_current, leads_withRemaining, leads_write,
    leads_pure]
  exact itemsUntil_refuses (expressionWithin_refusing levels 0 (Nat.le_refl _))
    (expressionWithin_reliable levels 0 (Nat.le_refl _)) parser (Nat.zero_le _) standard

theorem soleExpression_refuses (standard : parser.rules = Rules.standard) :
    Refuses .expression soleExpression parser := by
  have refuses := expressionWithin_refusing levels 0 (Nat.le_refl _) .lowest parser standard
    (Nat.zero_le _)
  simp only [Refuses, soleExpression, leads_bind, leads_current]
  refine (refuses.meets (expression_meets .lowest standard)).mono ?_ fun _ _ refused => refused
  intro expr after found
  obtain ⟨reads, -⟩ := found
  split
  · trivial
  · exact ⟨rfl, Grammar.Covers.opens reads.covered⟩

end ParserM

end ExprCheck
