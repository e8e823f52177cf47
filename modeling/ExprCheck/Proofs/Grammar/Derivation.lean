import ExprCheck.Proofs.Parser.Reading
import ExprCheck.Proofs.Parser.Rule

/-!
# The grammar

The language as a grammar over the kinds of tokens, without powers and without a preference among
the derivations of a text:

* `Grammar.Derives symbol kinds`: `kinds` can be derived from `symbol`. There is one rule for each
  alternative of the grammar.
* `Reads.covered`: the tokens that a reading takes can be derived. A signed operand is the one
  phrase that reaches beyond its symbol, since the operators that bind tighter than a sign become
  part of it.
-/

namespace ExprCheck

open Rules (binaryOperators mem_binaryOperators_iff)

namespace Grammar

/-- A part of a text. -/
inductive Symbol where
  | program
  | expression
  /-- The operators after the first operand of an expression, each with its right operand. -/
  | operations
  | operand
  | primary
  | block
  | chain
  /-- What may follow the first branch of a chain. -/
  | continuation

/-- Texts and the parts that they can be derived from. -/
inductive Derives : Symbol → List TokenKind → Prop where
  | emptyProgram : Derives .program []
  | program {first later} :
      Derives .expression first → Derives .program later → Derives .program (first ++ later)
  | expression {first later} :
      Derives .operand first → Derives .operations later → Derives .expression (first ++ later)
  | noOperation : Derives .operations []
  | operation {operator operand later} :
      operator ∈ binaryOperators → Derives .operand operand → Derives .operations later →
      Derives .operations (operator :: (operand ++ later))
  | sign {operator operand} :
      operator = .plus ∨ operator = .dash → Derives .operand operand →
      Derives .operand (operator :: operand)
  | primaryOperand {kinds} : Derives .primary kinds → Derives .operand kinds
  | literal {kind} : kind.isLiteral → Derives .primary [kind]
  | group {inner} :
      Derives .expression inner → Derives .primary (.openParen :: (inner ++ [.closeParen]))
  | blockPrimary {kinds} : Derives .block kinds → Derives .primary kinds
  | chainPrimary {kinds} : Derives .chain kinds → Derives .primary kinds
  | block {inner} :
      Derives .program inner → Derives .block (.openCurly :: (inner ++ [.closeCurly]))
  | chain {condition body more} :
      Derives .expression condition → Derives .block body → Derives .continuation more →
      Derives .chain (.ifWord :: (condition ++ (body ++ more)))
  | noContinuation : Derives .continuation []
  | elsifBranch {condition body more} :
      Derives .expression condition → Derives .block body → Derives .continuation more →
      Derives .continuation (.elsifWord :: (condition ++ (body ++ more)))
  | elseBranch {body} : Derives .block body → Derives .continuation (.elseWord :: body)

/-! ### Longer expressions -/

theorem Derives.operations_append {first later : List TokenKind} (h : Derives .operations first)
    (h' : Derives .operations later) : Derives .operations (first ++ later) := by
  generalize eq : Symbol.operations = symbol at h
  induction h with
  | noOperation => exact h'
  | @operation operator operand later' mem isOperand _ _ ih =>
    rw [List.cons_append, List.append_assoc]
    exact .operation mem isOperand (ih rfl)
  | _ => cases eq

theorem Derives.expression_append {first later : List TokenKind} (h : Derives .expression first)
    (h' : Derives .operations later) : Derives .expression (first ++ later) := by
  cases h with
  | expression isOperand operations =>
    rw [List.append_assoc]
    exact .expression isOperand (operations.operations_append h')

/-- An operator and an expression after it, in which the operator has only the first operand. -/
theorem Derives.operation_expression {operator : TokenKind} {kinds : List TokenKind}
    (mem : operator ∈ binaryOperators) (h : Derives .expression kinds) :
    Derives .operations (operator :: kinds) := by
  cases h with
  | expression isOperand operations => exact .operation mem isOperand operations

/-- A sign before an expression belongs to the first operand. -/
theorem Derives.sign_expression {operator : TokenKind} {kinds : List TokenKind}
    (isSign : operator = .plus ∨ operator = .dash) (h : Derives .expression kinds) :
    Derives .expression (operator :: kinds) := by
  cases h with
  | expression isOperand operations => exact .expression (.sign isSign isOperand) operations

theorem Derives.expression_of_primary {kinds : List TokenKind} (h : Derives .primary kinds) :
    Derives .expression kinds := by
  rw [← List.append_nil kinds]
  exact .expression (.primaryOperand h) .noOperation

/-! ### Readings follow the grammar -/

/-- The tokens before the rest can be derived. -/
def Covers (symbol : Symbol) (tokens rest : List Token) : Prop :=
  ∃ taken, tokens = taken ++ rest ∧ Derives symbol (taken.map Token.kind)

theorem Covers.refl_of_nil {symbol : Symbol} (h : Derives symbol []) (tokens : List Token) :
    Covers symbol tokens tokens :=
  ⟨[], rfl, h⟩

theorem Covers.cons {symbol symbol' : Symbol} {first : Token} {tokens rest : List Token}
    (h : Covers symbol tokens rest)
    (grows : ∀ {kinds}, Derives symbol kinds → Derives symbol' (first.kind :: kinds)) :
    Covers symbol' (first :: tokens) rest := by
  obtain ⟨taken, rfl, derives⟩ := h
  exact ⟨first :: taken, rfl, grows derives⟩

theorem Covers.append {symbol symbol' symbol'' : Symbol} {tokens middle rest : List Token}
    (h : Covers symbol tokens middle) (h' : Covers symbol' middle rest)
    (joins : ∀ {first later}, Derives symbol first → Derives symbol' later →
      Derives symbol'' (first ++ later)) : Covers symbol'' tokens rest := by
  obtain ⟨first, rfl, derives⟩ := h
  obtain ⟨later, rfl, derives'⟩ := h'
  refine ⟨first ++ later, (List.append_assoc ..).symm, ?_⟩
  rw [List.map_append]
  exact joins derives derives'

theorem Covers.mono {symbol symbol' : Symbol} {tokens rest : List Token}
    (h : Covers symbol tokens rest)
    (wider : ∀ {kinds}, Derives symbol kinds → Derives symbol' kinds) :
    Covers symbol' tokens rest := by
  obtain ⟨taken, eq, derives⟩ := h
  exact ⟨taken, eq, wider derives⟩

end Grammar

open Grammar

/-- What the tokens of a phrase can be derived from. The first word of a branch decides whether it
starts a chain or continues one. -/
def Phrase.Covers : Phrase → List Token → List Token → Prop
  | .expression _, tokens, rest | .operand, tokens, rest => Grammar.Covers .expression tokens rest
  | .operators .., tokens, rest => Grammar.Covers .operations tokens rest
  | .block, tokens, rest => Grammar.Covers .block tokens rest
  | .branch, tokens, rest => ∃ word later, tokens = word :: later ∧
      (word.kind = .ifWord → Grammar.Covers .chain tokens rest) ∧
      (word.kind = .elsifWord → Grammar.Covers .continuation tokens rest)

namespace Reads

/-- A word, its condition, its body and what follows them make up a chain or continue one. -/
theorem branch_covered {word : Token} {tokens middle later rest : List Token}
    (condition : Grammar.Covers .expression tokens middle)
    (body : Grammar.Covers .block middle later)
    (more : Grammar.Covers .continuation later rest) :
    Phrase.Covers .branch (word :: tokens) rest := by
  obtain ⟨first, rfl, isCondition⟩ := condition
  obtain ⟨second, rfl, isBody⟩ := body
  obtain ⟨third, rfl, isMore⟩ := more
  have joined : first ++ (second ++ (third ++ rest)) = (first ++ (second ++ third)) ++ rest := by
    simp only [List.append_assoc]
  refine ⟨word, _, rfl, fun isWord => ⟨word :: (first ++ (second ++ third)), ?_, ?_⟩,
    fun isWord => ⟨word :: (first ++ (second ++ third)), ?_, ?_⟩⟩
  · rw [joined, List.cons_append]
  · rw [List.map_cons, List.map_append, List.map_append, isWord]
    exact .chain isCondition isBody isMore
  · rw [joined, List.cons_append]
  · rw [List.map_cons, List.map_append, List.map_append, isWord]
    exact .elsifBranch isCondition isBody isMore

/-- The tokens that a row takes are those of a program. -/
theorem row_covered {read : List Token → Expr → List Token → Prop} {tokens : List Token}
    {items : List Expr} {rest : List Token} (row : Row read tokens items rest)
    (covered : ∀ tokens item rest, read tokens item rest →
      Grammar.Covers .expression tokens rest) :
    Grammar.Covers .program tokens rest := by
  induction row with
  | nil => exact .refl_of_nil .emptyProgram _
  | cons first _ ih => exact (covered _ _ _ first).append ih .program

/-- The tokens that a reading takes can be derived. -/
theorem covered {phrase : Phrase} {tokens : List Token} {expr : Expr} {rest : List Token}
    (h : Reads phrase tokens expr rest) : phrase.Covers tokens rest := by
  induction h using Reads.induct with
  | expression _ _ first later => exact Grammar.Covers.append first later Derives.expression_append
  | @literal token _ isLiteral =>
    exact ⟨[token], rfl, .expression_of_primary (.literal isLiteral)⟩
  | sign isSign _ operand => exact Grammar.Covers.cons operand (Derives.sign_expression isSign)
  | @group opening closing _ _ _ isOpening _ isClosing inner =>
    obtain ⟨taken, rfl, derives⟩ := inner
    refine ⟨opening :: (taken ++ [closing]), by simp, ?_⟩
    rw [List.map_cons, List.map_append, List.map_singleton, isOpening, isClosing]
    exact .expression_of_primary (.group derives)
  | blockOperand _ inner =>
    exact Grammar.Covers.mono inner fun h => .expression_of_primary (.blockPrimary h)
  | branchOperand isWord _ inner =>
    obtain ⟨_, _, eq, chain, -⟩ := inner
    obtain ⟨rfl, rfl⟩ := List.cons.inj eq
    exact (chain isWord).mono fun h => .expression_of_primary (.chainPrimary h)
  | stop _ => exact .refl_of_nil .noOperation _
  | @operator power left rule tokens right middle expr rest operator found _ _ _ operand later =>
    have mem : operator.kind ∈ binaryOperators :=
      (mem_binaryOperators_iff _).2 (by rw [found]; rfl)
    have first : Grammar.Covers .operations (operator :: tokens) middle :=
      Grammar.Covers.cons operand (Derives.operation_expression mem)
    exact first.append later Derives.operations_append
  | @block opening closing _ _ _ isOpening _ isClosing items =>
    obtain ⟨taken, rfl, derives⟩ := row_covered items fun _ _ _ read =>
      read.elim fun _ covered => covered
    refine ⟨opening :: (taken ++ [closing]), by simp, ?_⟩
    rw [List.map_cons, List.map_append, List.map_singleton, isOpening, isClosing]
    exact .block derives
  | ifThen _ _ _ _ condition body =>
    exact branch_covered condition body (.refl_of_nil .noContinuation _)
  | @ifElse word tokens condition middle body next _ _ _ _ _ isElse _ isCondition isBody other =>
    refine branch_covered isCondition isBody (Grammar.Covers.cons other ?_)
    rw [isElse]
    exact .elseBranch
  | ifElsif _ _ isElsif _ condition body other =>
    obtain ⟨_, _, eq, -, continuation⟩ := other
    obtain ⟨rfl, rfl⟩ := List.cons.inj eq
    exact branch_covered condition body (continuation isElsif)

end Reads

end ExprCheck
