import ExprCheck.Parser.Rule
import ExprCheck.Tree.Basic

/-!
# How tokens are read

The reading of tokens as a relation, without a parser state, a limit on the depth or a bound on the
rounds of a loop:

* `Phrase`: what is read at some place, an expression at some power or a part of one.
* `Reads phrase tokens expr rest`: the phrase at the beginning of `tokens` has the tree `expr`, and
  `rest` follows it. There is one rule for each way in which the parser can succeed.
* `Row`: readings one after the other, as in a block and in a program.
* `Reads.induct`: induction on a reading, where a block may use what holds of each of its elements.
* `Reads.length_le`: every phrase but a row of operators takes at least one token.
-/

namespace ExprCheck

/-- What is read at some place of a source. -/
inductive Phrase where
  /-- An operand and the operators after it that bind tighter than a power. -/
  | expression (power : BindingPower)
  /-- An operand. -/
  | operand
  /-- The operators that bind tighter than a power, after an operand that has been read. -/
  | operators (power : BindingPower) (left : Expr)
  /-- Expressions in curly brackets. -/
  | block
  /-- A conditional, from its first word or from a word that continues it. -/
  | branch

/-- Readings one after the other. -/
inductive Row (read : List Token → Expr → List Token → Prop) :
    List Token → List Expr → List Token → Prop where
  | nil {tokens} : Row read tokens [] tokens
  | cons {tokens item middle items rest} :
      read tokens item middle → Row read middle items rest → Row read tokens (item :: items) rest

theorem Row.mono {read read' : List Token → Expr → List Token → Prop}
    (weaker : ∀ tokens expr rest, read tokens expr rest → read' tokens expr rest)
    {tokens : List Token} {items : List Expr} {rest : List Token} (h : Row read tokens items rest) :
    Row read' tokens items rest := by
  induction h with
  | nil => exact .nil
  | cons first _ ih => exact .cons (weaker _ _ _ first) ih

/-- A phrase at the beginning of some tokens, its tree and the tokens after it. -/
inductive Reads : Phrase → List Token → Expr → List Token → Prop where
  | expression {power tokens left middle expr rest} :
      Reads .operand tokens left middle → Reads (.operators power left) middle expr rest →
      Reads (.expression power) tokens expr rest
  | literal {token rest} :
      token.kind.isLiteral → Reads .operand (token :: rest) (.literal () token) rest
  | sign {operator tokens operand rest} :
      operator.kind = .plus ∨ operator.kind = .dash →
      Reads (.expression .additive) tokens operand rest →
      Reads .operand (operator :: tokens)
        (.unary () operator operand ⟨operator.span.start, operand.span.stop⟩) rest
  | group {opening tokens inner closing rest} :
      opening.kind = .openParen → Reads (.expression .lowest) tokens inner (closing :: rest) →
      closing.kind = .closeParen → Reads .operand (opening :: tokens) inner rest
  | blockOperand {tokens expr rest} :
      Reads .block tokens expr rest → Reads .operand tokens expr rest
  | branchOperand {word tokens expr rest} :
      word.kind = .ifWord → Reads .branch (word :: tokens) expr rest →
      Reads .operand (word :: tokens) expr rest
  | stop {power left token rest} :
      (∀ rule, Rules.standardInfix? token.kind = some rule → ¬ power < rule.power) →
      Reads (.operators power left) (token :: rest) left (token :: rest)
  | operator {power left operator rule tokens right middle expr rest} :
      Rules.standardInfix? operator.kind = some rule → power < rule.power →
      Reads (.expression rule.operandPower) tokens right middle →
      Reads (.operators power (.binary () left operator right ⟨left.span.start, right.span.stop⟩))
        middle expr rest →
      Reads (.operators power left) (operator :: tokens) expr rest
  | block {opening tokens items closing rest} :
      opening.kind = .openCurly →
      Row (Reads (.expression .lowest)) tokens items (closing :: rest) →
      closing.kind = .closeCurly →
      Reads .block (opening :: tokens)
        (.block () items ⟨opening.span.start, closing.span.stop⟩) rest
  | ifThen {word tokens condition middle body next rest} :
      Reads (.expression .lowest) tokens condition middle →
      Reads .block middle body (next :: rest) →
      next.kind ≠ .elsifWord → next.kind ≠ .elseWord →
      Reads .branch (word :: tokens)
        (.ifThen () condition body ⟨word.span.start, body.span.stop⟩) (next :: rest)
  | ifElse {word tokens condition middle body next later otherwise rest} :
      Reads (.expression .lowest) tokens condition middle →
      Reads .block middle body (next :: later) →
      next.kind = .elseWord → Reads .block later otherwise rest →
      Reads .branch (word :: tokens)
        (.ifElse () condition body otherwise ⟨word.span.start, otherwise.span.stop⟩) rest
  | ifElsif {word tokens condition middle body next later otherwise rest} :
      Reads (.expression .lowest) tokens condition middle →
      Reads .block middle body (next :: later) →
      next.kind = .elsifWord → Reads .branch (next :: later) otherwise rest →
      Reads .branch (word :: tokens)
        (.ifElse () condition body otherwise ⟨word.span.start, otherwise.span.stop⟩) rest

namespace Reads

/-! ### Induction -/

section Induction

variable {motive : ∀ phrase tokens expr rest, Reads phrase tokens expr rest → Prop}
  (expression : ∀ {power tokens left middle expr rest}
    (first : Reads .operand tokens left middle)
    (later : Reads (.operators power left) middle expr rest),
    motive _ _ _ _ first → motive _ _ _ _ later → motive _ _ _ _ (.expression first later))
  (literal : ∀ {token : Token} {rest} (isLiteral : token.kind.isLiteral),
    motive _ (token :: rest) _ _ (.literal isLiteral))
  (sign : ∀ {operator : Token} {tokens operand rest}
    (isSign : operator.kind = .plus ∨ operator.kind = .dash)
    (inner : Reads (.expression .additive) tokens operand rest),
    motive _ _ _ _ inner → motive _ _ _ _ (.sign isSign inner))
  (group : ∀ {opening closing : Token} {tokens expr rest} (isOpening : opening.kind = .openParen)
    (inner : Reads (.expression .lowest) tokens expr (closing :: rest))
    (isClosing : closing.kind = .closeParen),
    motive _ _ _ _ inner → motive _ _ _ _ (.group isOpening inner isClosing))
  (blockOperand : ∀ {tokens expr rest} (inner : Reads .block tokens expr rest),
    motive _ _ _ _ inner → motive _ _ _ _ (.blockOperand inner))
  (branchOperand : ∀ {word : Token} {tokens expr rest} (isWord : word.kind = .ifWord)
    (inner : Reads .branch (word :: tokens) expr rest),
    motive _ _ _ _ inner → motive _ _ _ _ (.branchOperand isWord inner))
  (stop : ∀ {power left} {token : Token} {rest}
    (stops : ∀ rule, Rules.standardInfix? token.kind = some rule → ¬ power < rule.power),
    motive (.operators power left) (token :: rest) _ _ (.stop stops))
  (operator : ∀ {power left rule tokens right middle expr rest} {operator : Token}
    (found : Rules.standardInfix? operator.kind = some rule) (tighter : power < rule.power)
    (operand : Reads (.expression rule.operandPower) tokens right middle)
    (later : Reads
      (.operators power (.binary () left operator right ⟨left.span.start, right.span.stop⟩))
      middle expr rest),
    motive _ _ _ _ operand → motive _ _ _ _ later →
    motive _ _ _ _ (.operator found tighter operand later))
  (block : ∀ {opening closing : Token} {tokens items rest} (isOpening : opening.kind = .openCurly)
    (inner : Row (Reads (.expression .lowest)) tokens items (closing :: rest))
    (isClosing : closing.kind = .closeCurly),
    Row (fun tokens item rest => ∃ h : Reads (.expression .lowest) tokens item rest,
      motive _ _ _ _ h) tokens items (closing :: rest) →
    motive _ _ _ _ (.block isOpening inner isClosing))
  (ifThen : ∀ {word tokens condition middle body next rest}
    (first : Reads (.expression .lowest) tokens condition middle)
    (second : Reads .block middle body (next :: rest))
    (notElsif : next.kind ≠ .elsifWord) (notElse : next.kind ≠ .elseWord),
    motive _ _ _ _ first → motive _ _ _ _ second →
    motive _ (word :: tokens) _ _ (.ifThen first second notElsif notElse))
  (ifElse : ∀ {word tokens condition middle body next later otherwise rest}
    (first : Reads (.expression .lowest) tokens condition middle)
    (second : Reads .block middle body (next :: later)) (isElse : next.kind = .elseWord)
    (third : Reads .block later otherwise rest),
    motive _ _ _ _ first → motive _ _ _ _ second → motive _ _ _ _ third →
    motive _ (word :: tokens) _ _ (.ifElse first second isElse third))
  (ifElsif : ∀ {word tokens condition middle body next later otherwise rest}
    (first : Reads (.expression .lowest) tokens condition middle)
    (second : Reads .block middle body (next :: later)) (isElsif : next.kind = .elsifWord)
    (third : Reads .branch (next :: later) otherwise rest),
    motive _ _ _ _ first → motive _ _ _ _ second → motive _ _ _ _ third →
    motive _ (word :: tokens) _ _ (.ifElsif first second isElsif third))

include expression literal sign group blockOperand branchOperand stop operator block ifThen ifElse
  ifElsif

/-- Induction on a reading, where a block may use what holds of the readings of its elements. -/
@[elab_as_elim]
theorem induct {phrase : Phrase} {tokens : List Token} {expr : Expr} {rest : List Token}
    (h : Reads phrase tokens expr rest) : motive phrase tokens expr rest h :=
  Reads.rec (motive_1 := motive)
    (motive_2 := fun tokens items rest _ =>
      Row (fun tokens item rest => ∃ h : Reads (.expression .lowest) tokens item rest,
        motive _ _ _ _ h) tokens items rest)
    expression literal sign group blockOperand branchOperand stop operator block ifThen ifElse
    ifElsif .nil (fun first _ ih ihs => .cons ⟨first, ih⟩ ihs) h

end Induction

end Reads

/-! ### Every phrase takes tokens -/

/-- The number of tokens that a phrase takes at least. -/
def Phrase.least : Phrase → Nat
  | .operators .. => 0
  | .expression _ | .operand | .block | .branch => 1

theorem Row.length_le {read : List Token → Expr → List Token → Prop} {tokens : List Token}
    {items : List Expr} {rest : List Token} (h : Row read tokens items rest)
    (shorter : ∀ tokens item rest, read tokens item rest → rest.length ≤ tokens.length) :
    rest.length ≤ tokens.length := by
  induction h with
  | nil => exact Nat.le_refl _
  | cons first _ ih => exact Nat.le_trans ih (shorter _ _ _ first)

theorem Reads.length_le {phrase : Phrase} {tokens : List Token} {expr : Expr} {rest : List Token}
    (h : Reads phrase tokens expr rest) : rest.length + phrase.least ≤ tokens.length := by
  induction h using Reads.induct with
  | expression _ _ first later =>
    simp only [Phrase.least] at first later ⊢
    omega
  | literal _ => exact Nat.le_refl _
  | stop _ => exact Nat.le_refl _
  | sign _ _ ih =>
    simp only [Phrase.least, List.length_cons] at ih ⊢
    omega
  | group _ _ _ ih =>
    simp only [Phrase.least, List.length_cons] at ih ⊢
    omega
  | blockOperand _ ih => exact ih
  | branchOperand _ _ ih => exact ih
  | operator _ _ _ _ right later =>
    simp only [Phrase.least, List.length_cons] at right later ⊢
    omega
  | block _ _ _ items =>
    have inner := items.length_le fun _ _ _ read =>
      read.elim fun _ shorter => Nat.le_of_succ_le shorter
    simp only [Phrase.least, List.length_cons] at inner ⊢
    omega
  | ifThen _ _ _ _ condition body =>
    simp only [Phrase.least, List.length_cons] at condition body ⊢
    omega
  | ifElse _ _ _ _ condition body otherwise =>
    simp only [Phrase.least, List.length_cons] at condition body otherwise ⊢
    omega
  | ifElsif _ _ _ _ condition body otherwise =>
    simp only [Phrase.least, List.length_cons] at condition body otherwise ⊢
    omega

end ExprCheck
