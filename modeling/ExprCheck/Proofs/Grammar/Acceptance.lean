import ExprCheck.Proofs.Grammar.Derivation
import ExprCheck.Proofs.Grammar.Operations
import ExprCheck.Proofs.Parser.Entry

/-!
# The parser accepts its grammar

* `Grammar.Symbol.Readable`: what derivable tokens of each symbol can be read as. A program may
  start with operators that belong to an expression before it.
* `Grammar.Derives.readable`: this holds of all derivable tokens, with one lemma for each
  alternative of the grammar that has a reading of its own.
* `parse_accepts_grammar`: `parse` accepts the derivable texts and no others, but for trees that are
  too deep.
-/

namespace ExprCheck

open Rules (binaryOperators)

namespace Grammar

/-! ### What derivable tokens can be read as -/

/-- Tokens that read as one phrase before anything that satisfies a condition. -/
def ReadsBefore (next : List Token → Prop) (phrase : Phrase) (tokens : List Token) : Prop :=
  ∀ rest, next rest → ∃ expr, Reads phrase (tokens ++ rest) expr rest

/-- Tokens that read as a row of expressions. -/
def ReadsAsRow (tokens : List Token) : Prop :=
  ∀ rest, Stops rest → ∃ items, Row (Reads (.expression .lowest)) (tokens ++ rest) items rest

/-- Operators, each with an operand after it. -/
def AreOperations (operations : List (Token × List Token)) : Prop :=
  ∀ operation ∈ operations, operation.1.kind ∈ binaryOperators ∧ IsOperand operation.2

/-- Tokens before which an expression ends, whatever follows them, or an operator and its
operand. -/
def StartsAnew (tokens : List Token) : Prop :=
  Stops tokens ∨ ∃ operator operand, tokens = operator :: operand ∧
    operator.kind ∈ binaryOperators ∧ IsOperand operand

/-- What derivable tokens of a symbol can be read as. -/
def Symbol.Readable : Symbol → List Token → Prop
  | .program, tokens => ReadsAsRow tokens ∧ ∃ operations later,
      tokens = spread operations ++ later ∧ AreOperations operations ∧
      (later = [] ∨ Stops later) ∧ ReadsAsRow later
  | .expression, tokens => ∃ operand operations, tokens = operand ++ spread operations ∧
      IsOperand operand ∧ StartsAnew operand ∧ AreOperations operations
  | .operations, tokens => ∃ operations, tokens = spread operations ∧ AreOperations operations
  | .operand, tokens => IsOperand tokens ∧ StartsAnew tokens
  | .primary, tokens => ReadsBefore EndsChain .operand tokens ∧ Stops tokens
  | .block, tokens => ReadsBefore (fun _ => True) .block tokens ∧ Stops tokens
  | .chain, tokens => ReadsBefore EndsChain .operand tokens ∧ Stops tokens
  | .continuation, tokens => ∀ word before condition middle body rest,
      Reads (.expression .lowest) before condition middle →
      Reads .block middle body (tokens ++ rest) → EndsChain rest →
      ∃ expr, Reads .branch (word :: before) expr rest

theorem ReadsBefore.isOperand {tokens : List Token} (h : ReadsBefore EndsChain .operand tokens) :
    IsOperand tokens := by
  intro operations rest absorbed
  obtain ⟨expr, reads⟩ := h _ absorbed.endsChain
  exact ⟨expr, operations, reads, List.suffix_rfl⟩

/-- A sign takes the operators that bind tighter than it. -/
theorem IsOperand.sign {operator : Token} {operand : List Token}
    (isSign : operator.kind = .plus ∨ operator.kind = .dash) (h : IsOperand operand) :
    IsOperand (operator :: operand) := by
  intro operations rest absorbed
  obtain ⟨inner, remaining, reads, isSuffix, -⟩ := absorbed.expression h .additive
  exact ⟨_, remaining, .sign isSign reads, isSuffix⟩

/-- An expression and the operators at the beginning of what follows it, up to tokens at which an
expression ends. -/
theorem expression_readsBefore {operand : List Token} {operations : List (Token × List Token)}
    (isOperand : IsOperand operand) (areOperations : AreOperations operations) :
    ReadsBefore Stops (.expression .lowest) (operand ++ spread operations) := by
  intro rest stops
  obtain ⟨expr, remaining, reads, -, all⟩ :=
    (Absorbed.of_operands stops areOperations).expression isOperand .lowest
  obtain rfl := all rfl
  exact ⟨expr, by rwa [List.append_assoc]⟩

theorem Symbol.Readable.expression_readsBefore {tokens : List Token}
    (h : Symbol.Readable .expression tokens) :
    ReadsBefore Stops (.expression .lowest) tokens := by
  obtain ⟨operand, operations, rfl, isOperand, -, areOperations⟩ := h
  exact Grammar.expression_readsBefore isOperand areOperations

theorem AreOperations.append {first later : List (Token × List Token)} (h : AreOperations first)
    (h' : AreOperations later) : AreOperations (first ++ later) := by
  intro operation mem
  rcases List.mem_append.1 mem with mem | mem
  · exact h operation mem
  · exact h' operation mem

/-- One more expression before a program. It takes the operators at the beginning of the program,
and if it starts with a sign itself, it may become part of an expression before it. -/
theorem readable_program {first later : List Token} (h : Symbol.Readable .expression first)
    (h' : Symbol.Readable .program later) : Symbol.Readable .program (first ++ later) := by
  obtain ⟨operand, operations, rfl, isOperand, starts, areOperations⟩ := h
  obtain ⟨-, more, others, rfl, areMore, ends, row⟩ := h'
  have joined : operand ++ spread operations ++ (spread more ++ others) =
      operand ++ spread (operations ++ more) ++ others := by
    rw [spread_append]
    simp only [List.append_assoc]
  have readsAsRow : ReadsAsRow (operand ++ spread operations ++ (spread more ++ others)) := by
    intro rest stops
    have stopsOthers : Stops (others ++ rest) := by
      rcases ends with rfl | ends
      · exact stops
      · exact ends.append rest
    obtain ⟨items, rowOthers⟩ := row rest stops
    obtain ⟨expr, reads⟩ :=
      Grammar.expression_readsBefore isOperand (areOperations.append areMore) _ stopsOthers
    refine ⟨expr :: items, ?_⟩
    rw [joined, List.append_assoc]
    exact .cons reads rowOthers
  refine ⟨readsAsRow, ?_⟩
  rcases starts with starts | ⟨operator, inner, rfl, mem, isInner⟩
  · refine ⟨[], _, rfl, fun _ mem => absurd mem List.not_mem_nil, .inr ?_, readsAsRow⟩
    exact (starts.append _).append _
  · refine ⟨(operator, inner) :: (operations ++ more), others, ?_, ?_, ends, row⟩
    · rw [joined, spread_cons, List.cons_append]
    · intro operation isMember
      rcases List.mem_cons.1 isMember with rfl | isMember
      · exact ⟨mem, isInner⟩
      · exact areOperations.append areMore operation isMember

theorem readable_block {opening closing : Token} {inner : List Token}
    (isOpening : opening.kind = .openCurly) (h : Symbol.Readable .program inner)
    (isClosing : closing.kind = .closeCurly) :
    Symbol.Readable .block (opening :: (inner ++ [closing])) := by
  refine ⟨?_, .of_kind isOpening (by decide) _⟩
  intro rest _
  obtain ⟨items, row⟩ := h.1 (closing :: rest) (.of_kind isClosing (by decide) rest)
  rw [List.cons_append, List.append_assoc]
  exact ⟨_, .block isOpening row isClosing⟩

/-! ### Operands -/

theorem readable_literal {token : Token} (isLiteral : token.kind.isLiteral) :
    Symbol.Readable .primary [token] :=
  ⟨fun _ _ => ⟨_, .literal isLiteral⟩, .of_kind rfl (TokenKind.closes_of_isLiteral isLiteral) []⟩

theorem readable_group {opening closing : Token} {inner : List Token}
    (isOpening : opening.kind = .openParen) (h : Symbol.Readable .expression inner)
    (isClosing : closing.kind = .closeParen) :
    Symbol.Readable .primary (opening :: (inner ++ [closing])) := by
  refine ⟨?_, .of_kind isOpening (by decide) _⟩
  intro rest _
  obtain ⟨expr, reads⟩ :=
    h.expression_readsBefore (closing :: rest) (.of_kind isClosing (by decide) rest)
  rw [List.cons_append, List.append_assoc]
  exact ⟨expr, .group isOpening reads isClosing⟩

theorem readable_sign {operator : Token} {operand : List Token}
    (isSign : operator.kind = .plus ∨ operator.kind = .dash)
    (h : Symbol.Readable .operand operand) : Symbol.Readable .operand (operator :: operand) := by
  obtain ⟨isOperand, -⟩ := h
  refine ⟨isOperand.sign isSign, .inr ⟨operator, operand, rfl, ?_, isOperand⟩⟩
  rcases isSign with isSign | isSign <;> rw [isSign] <;> decide

theorem readable_operation {operator : Token} {operand later : List Token}
    (mem : operator.kind ∈ binaryOperators) (h : Symbol.Readable .operand operand)
    (h' : Symbol.Readable .operations later) :
    Symbol.Readable .operations (operator :: (operand ++ later)) := by
  obtain ⟨operations, rfl, areOperations⟩ := h'
  refine ⟨(operator, operand) :: operations, rfl, ?_⟩
  intro operation isMember
  rcases List.mem_cons.1 isMember with rfl | isMember
  · exact ⟨mem, h.1⟩
  · exact areOperations operation isMember

/-! ### Conditionals -/

/-- The condition and the body of a branch, and then what goes on. -/
theorem branch_reads (word : Token) {condition body more rest : List Token}
    (isCondition : Symbol.Readable .expression condition) (isBody : Symbol.Readable .block body)
    (isMore : Symbol.Readable .continuation more) (ends : EndsChain rest) :
    ∃ expr, Reads .branch (word :: (condition ++ (body ++ more) ++ rest)) expr rest := by
  obtain ⟨readsBody, stopsBody⟩ := isBody
  obtain ⟨conditionExpr, readsCondition⟩ :=
    isCondition.expression_readsBefore _ (stopsBody.append (more ++ rest))
  obtain ⟨bodyExpr, readsBody⟩ := readsBody (more ++ rest) trivial
  have joined : condition ++ (body ++ more) ++ rest = condition ++ (body ++ (more ++ rest)) := by
    simp only [List.append_assoc]
  rw [joined]
  exact isMore word _ _ _ _ rest readsCondition readsBody ends

theorem readable_chain {word : Token} {condition body more : List Token}
    (isWord : word.kind = .ifWord) (isCondition : Symbol.Readable .expression condition)
    (isBody : Symbol.Readable .block body) (isMore : Symbol.Readable .continuation more) :
    Symbol.Readable .chain (word :: (condition ++ (body ++ more))) := by
  refine ⟨?_, .of_kind isWord (by decide) _⟩
  intro rest ends
  obtain ⟨expr, reads⟩ := branch_reads word isCondition isBody isMore ends
  exact ⟨expr, .branchOperand isWord reads⟩

theorem readable_noContinuation : Symbol.Readable .continuation [] := by
  intro word before condition middle body rest isCondition isBody ends
  obtain ⟨next, later, rfl, notElsif, notElse⟩ := ends
  exact ⟨_, .ifThen isCondition isBody notElsif notElse⟩

theorem readable_elsif {next : Token} {nextCondition nextBody more : List Token}
    (isElsif : next.kind = .elsifWord) (isNext : Symbol.Readable .expression nextCondition)
    (isNextBody : Symbol.Readable .block nextBody) (isMore : Symbol.Readable .continuation more) :
    Symbol.Readable .continuation (next :: (nextCondition ++ (nextBody ++ more))) := by
  intro word before condition middle body rest isCondition isBody ends
  obtain ⟨otherwise, reads⟩ := branch_reads next isNext isNextBody isMore ends
  exact ⟨_, .ifElsif isCondition isBody isElsif reads⟩

theorem readable_else {next : Token} {other : List Token} (isElse : next.kind = .elseWord)
    (h : Symbol.Readable .block other) : Symbol.Readable .continuation (next :: other) := by
  intro word before condition middle body rest isCondition isBody _
  obtain ⟨otherwise, reads⟩ := h.1 rest trivial
  exact ⟨_, .ifElse isCondition isBody isElse reads⟩

/-! ### Derivations -/

/-- Tokens whose kinds are those of two brackets and what stands between them. -/
theorem map_kind_eq_enclosed {tokens : List Token} {inner : List TokenKind}
    {opening closing : TokenKind}
    (h : tokens.map Token.kind = opening :: (inner ++ [closing])) :
    ∃ first middle last, tokens = first :: (middle ++ [last]) ∧ first.kind = opening ∧
      middle.map Token.kind = inner ∧ last.kind = closing := by
  obtain ⟨first, tokens, rfl, isOpening, eq⟩ := List.map_eq_cons_iff.1 h
  obtain ⟨middle, tokens, rfl, isMiddle, eq⟩ := List.map_eq_append_iff.1 eq
  obtain ⟨last, rfl, isClosing⟩ := List.map_eq_singleton_iff.1 eq
  exact ⟨first, middle, last, rfl, isOpening, isMiddle, isClosing⟩

/-- Tokens whose kinds are those of a word, a condition, a body and what follows them. -/
theorem map_kind_eq_branch {tokens : List Token} {condition body more : List TokenKind}
    {word : TokenKind}
    (h : tokens.map Token.kind = word :: (condition ++ (body ++ more))) :
    ∃ first before middle later, tokens = first :: (before ++ (middle ++ later)) ∧
      first.kind = word ∧ before.map Token.kind = condition ∧ middle.map Token.kind = body ∧
      later.map Token.kind = more := by
  obtain ⟨first, tokens, rfl, isWord, eq⟩ := List.map_eq_cons_iff.1 h
  obtain ⟨before, tokens, rfl, isBefore, eq⟩ := List.map_eq_append_iff.1 eq
  obtain ⟨middle, later, rfl, isMiddle, isLater⟩ := List.map_eq_append_iff.1 eq
  exact ⟨first, before, middle, later, rfl, isWord, isBefore, isMiddle, isLater⟩

/-- Derivable tokens can be read. -/
theorem Derives.readable {symbol : Symbol} {kinds : List TokenKind} (h : Derives symbol kinds) :
    ∀ tokens : List Token, tokens.map Token.kind = kinds → symbol.Readable tokens := by
  induction h with
  | emptyProgram =>
    intro tokens eq
    obtain rfl := List.map_eq_nil_iff.1 eq
    have readsAsRow : ReadsAsRow [] := fun _ _ => ⟨[], .nil⟩
    exact ⟨readsAsRow, [], [], rfl, fun _ mem => absurd mem List.not_mem_nil, .inl rfl, readsAsRow⟩
  | program _ _ ihFirst ihLater =>
    intro tokens eq
    obtain ⟨first, later, rfl, eqFirst, eqLater⟩ := List.map_eq_append_iff.1 eq
    exact readable_program (ihFirst first eqFirst) (ihLater later eqLater)
  | expression _ _ ihOperand ihOperations =>
    intro tokens eq
    obtain ⟨operand, later, rfl, eqOperand, eqLater⟩ := List.map_eq_append_iff.1 eq
    obtain ⟨isOperand, starts⟩ := ihOperand operand eqOperand
    obtain ⟨operations, rfl, areOperations⟩ := ihOperations later eqLater
    exact ⟨operand, operations, rfl, isOperand, starts, areOperations⟩
  | noOperation =>
    intro tokens eq
    obtain rfl := List.map_eq_nil_iff.1 eq
    exact ⟨[], rfl, fun _ mem => absurd mem List.not_mem_nil⟩
  | operation mem _ _ ihOperand ihOperations =>
    intro tokens eq
    obtain ⟨operator, tokens, rfl, rfl, eqTokens⟩ := List.map_eq_cons_iff.1 eq
    obtain ⟨operand, later, rfl, eqOperand, eqLater⟩ := List.map_eq_append_iff.1 eqTokens
    exact readable_operation mem (ihOperand operand eqOperand) (ihOperations later eqLater)
  | sign isSign _ ih =>
    intro tokens eq
    obtain ⟨operator, operand, rfl, rfl, eqOperand⟩ := List.map_eq_cons_iff.1 eq
    exact readable_sign isSign (ih operand eqOperand)
  | primaryOperand _ ih =>
    intro tokens eq
    obtain ⟨reads, stops⟩ := ih tokens eq
    exact ⟨reads.isOperand, .inl stops⟩
  | literal isLiteral =>
    intro tokens eq
    obtain ⟨token, rfl, rfl⟩ := List.map_eq_singleton_iff.1 eq
    exact readable_literal isLiteral
  | group _ ih =>
    intro tokens eq
    obtain ⟨opening, inner, closing, rfl, isOpening, eqInner, isClosing⟩ := map_kind_eq_enclosed eq
    exact readable_group isOpening (ih inner eqInner) isClosing
  | blockPrimary _ ih =>
    intro tokens eq
    obtain ⟨reads, stops⟩ := ih tokens eq
    refine ⟨fun rest _ => ?_, stops⟩
    obtain ⟨expr, reads⟩ := reads rest trivial
    exact ⟨expr, .blockOperand reads⟩
  | chainPrimary _ ih => exact ih
  | block _ ih =>
    intro tokens eq
    obtain ⟨opening, inner, closing, rfl, isOpening, eqInner, isClosing⟩ := map_kind_eq_enclosed eq
    exact readable_block isOpening (ih inner eqInner) isClosing
  | chain _ _ _ ihCondition ihBody ihMore =>
    intro tokens eq
    obtain ⟨word, condition, body, more, rfl, isWord, eqCondition, eqBody, eqMore⟩ :=
      map_kind_eq_branch eq
    exact readable_chain isWord (ihCondition condition eqCondition) (ihBody body eqBody)
      (ihMore more eqMore)
  | noContinuation =>
    intro tokens eq
    obtain rfl := List.map_eq_nil_iff.1 eq
    exact readable_noContinuation
  | elsifBranch _ _ _ ihCondition ihBody ihMore =>
    intro tokens eq
    obtain ⟨word, condition, body, more, rfl, isWord, eqCondition, eqBody, eqMore⟩ :=
      map_kind_eq_branch eq
    exact readable_elsif isWord (ihCondition condition eqCondition) (ihBody body eqBody)
      (ihMore more eqMore)
  | elseBranch _ ih =>
    intro tokens eq
    obtain ⟨word, other, rfl, isWord, eqOther⟩ := List.map_eq_cons_iff.1 eq
    exact readable_else isWord (ih other eqOther)

end Grammar

open Grammar

/-- The kinds of the tokens before the end of the input. -/
def TokenStream.bodyKinds (tokens : List Token) : List TokenKind :=
  (TokenStream.body tokens).map Token.kind

/-- A list of tokens that only its last token may end is accepted only if it can be derived. If it
can be derived, it is accepted unless its tree is refused as too deep, which takes more tokens than
the tree may have levels. -/
theorem parse_accepts_grammar (tokens : List Token)
    (h : ∀ token ∈ tokens.dropLast, token.kind ≠ .eof) :
    (∀ expr, (parse (TokenStream.ofTokens tokens)).result = .ok expr →
        Derives .program (TokenStream.bodyKinds tokens)) ∧
      (Derives .program (TokenStream.bodyKinds tokens) →
        ∃ expr, (parse (TokenStream.ofTokens tokens)).IsTreeOrTooDeep expr) ∧
      (tokens.length ≤ maxNestingDepth →
        ∀ diagnostic, (parse (TokenStream.ofTokens tokens)).result = .error diagnostic →
          diagnostic.isTooDeep = false) := by
  obtain ⟨last, isEnd, eq⟩ := TokenStream.tokens_ofTokens h
  refine ⟨?_, ?_, ?_⟩
  · intro expr ok
    obtain ⟨items, last', isEnd', row, -⟩ := parse_sound ok
    obtain ⟨taken, split, derives⟩ := Reads.row_covered row fun _ _ _ reads => reads.covered
    rw [eq] at split
    obtain ⟨same, -⟩ := List.append_inj' split rfl
    rwa [TokenStream.bodyKinds, same]
  · intro derives
    obtain ⟨readsAsRow, -⟩ := derives.readable (TokenStream.body tokens) rfl
    obtain ⟨items, row⟩ := readsAsRow [last] (.of_kind isEnd (by decide) [])
    rw [← eq] at row
    exact ⟨_, parse_complete isEnd row⟩
  · intro few diagnostic error
    refine parse_shallow ?_ error
    have shorter : (TokenStream.body tokens).length ≤ tokens.length :=
      (List.takeWhile_sublist _).length_le
    rw [eq, List.length_append, List.length_singleton]
    omega

/-- Two expressions, of which the second starts with a sign, can be derived because the parser reads
them as one. -/
theorem parse_accepts_grammar_juxtaposed :
    let tokens : List Token := [.integer, .dash, .integer].map fun kind =>
      ⟨kind, "1", Span.empty ⟨0, "shell"⟩⟩
    (∀ token ∈ tokens.dropLast, token.kind ≠ .eof) ∧
      Derives .program (TokenStream.bodyKinds tokens) := by
  intro tokens
  have noEnd : ∀ token ∈ tokens.dropLast, token.kind ≠ .eof := by decide
  have accepted : (parse (TokenStream.ofTokens tokens)).result.isOk = true := by decide +kernel
  refine ⟨noEnd, ?_⟩
  cases eq : (parse (TokenStream.ofTokens tokens)).result with
  | error diagnostic =>
    rw [eq] at accepted
    cases accepted
  | ok expr => exact (parse_accepts_grammar tokens noEnd).1 expr eq

end ExprCheck
