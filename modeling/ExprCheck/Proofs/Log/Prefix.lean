import ExprCheck.Parser.Rule
import ExprCheck.Log
import ExprCheck.Proofs.Tree.Nodes
import ExprCheck.Proofs.Tree.Source
import Mathlib.Data.List.Nodup

/-!
# Tokens in prefix position

An expression is started with some of the tokens of a source: with literals, signs, opening brackets
and conditionals. For two kinds of token the tree has to tell, as a sign may be an operator and a
curly bracket may belong to a branch:

* `Tree.signs`, `Tree.bodies`: the signs of a tree, and where those branches of its conditionals
  start that are blocks.
* `Token.StartsIn tree token`: the token stands in prefix position, as far as the tree says.
* `Taken`: a token that was taken, with whether an expression was started with it. `Taken.logged`:
  what was logged for some of them.
* `Accounts signs bodies taken`: which of the tokens started an expression, by their kinds, by the
  signs and by the bodies. It goes through appending, so that a parser can keep it.
* `Accounts.entries_eq`: where no two tokens start at one place, an entry was logged for each token
  in prefix position and for no other.
-/

namespace ExprCheck

/-! ### Signs and bodies of a tree -/

namespace Tree

variable {α β : Type}

/-- The sign at the root. -/
def ownSign? : Tree α → Option Token
  | unary _ operator _ _ => some operator
  | _ => none

/-- Where the branches of the conditional at the root start, if they are blocks. -/
def ownBodies : Tree α → List Position
  | ifThen _ _ body _ => [body.start]
  | ifElse _ _ body otherwise _ =>
    if otherwise.isBlock then [body.start, otherwise.start] else [body.start]
  | _ => []

/-- The signs of a tree. -/
def signs (tree : Tree α) : List Token :=
  tree.nodes.filterMap ownSign?

/-- Where those branches of conditionals start that are blocks. -/
def bodies (tree : Tree α) : List Position :=
  tree.nodes.flatMap ownBodies

theorem signs_eq (tree : Tree α) :
    tree.signs = tree.ownSign?.toList ++ tree.inner.flatMap signs := by
  rw [signs, nodes_eq_cons, nodesAll_eq_flatMap, List.filterMap_cons, List.filterMap_flatMap]
  cases tree.ownSign? <;> rfl

theorem bodies_eq (tree : Tree α) :
    tree.bodies = tree.ownBodies ++ tree.inner.flatMap bodies := by
  rw [bodies, nodes_eq_cons, nodesAll_eq_flatMap, List.flatMap_cons, List.flatMap_assoc]
  rfl

/-! Both do not depend on the notes. -/

theorem nodes_map (f : α → β) (tree : Tree α) : (tree.map f).nodes = tree.nodes.map (map f) := by
  induction tree using induct with
  | literal note token => rfl
  | unary note operator operand span ih => simp [nodes, map, ih]
  | binary note left operator right span ihl ihr => simp [nodes, map, ihl, ihr]
  | ifThen note condition body span ihc ihb => simp [nodes, map, ihc, ihb]
  | ifElse note condition body otherwise span ihc ihb iho => simp [nodes, map, ihc, ihb, iho]
  | block note items span ih =>
    rw [map, nodes, nodes, mapAll_eq_map, nodesAll_eq_flatMap, nodesAll_eq_flatMap, List.map_cons,
      List.flatMap_map, List.map_flatMap, map, mapAll_eq_map]
    exact congrArg _ (List.flatMap_congr fun item mem => ih item mem)

theorem start_map (f : α → β) (tree : Tree α) : (tree.map f).start = tree.start := by
  rw [start, span_map, start]

theorem isBlock_map (f : α → β) (tree : Tree α) : (tree.map f).isBlock = tree.isBlock := by
  cases tree <;> rfl

theorem ownSign?_map (f : α → β) (tree : Tree α) : (tree.map f).ownSign? = tree.ownSign? := by
  cases tree <;> rfl

theorem ownBodies_map (f : α → β) (tree : Tree α) : (tree.map f).ownBodies = tree.ownBodies := by
  cases tree <;> simp [map, ownBodies, start_map, isBlock_map]

theorem signs_map (f : α → β) (tree : Tree α) : (tree.map f).signs = tree.signs := by
  rw [signs, nodes_map, List.filterMap_map]
  exact congrArg (List.filterMap · _) (funext (ownSign?_map f))

theorem bodies_map (f : α → β) (tree : Tree α) : (tree.map f).bodies = tree.bodies := by
  rw [bodies, nodes_map, List.flatMap_map]
  exact congrArg (List.flatMap · _) (funext (ownBodies_map f))

end Tree

/-! ### Tokens in prefix position -/

/-- A token of this kind starts an expression wherever it stands. -/
def TokenKind.startsAlways (kind : TokenKind) : Bool :=
  kind.isLiteral || kind = .openParen || kind = .ifWord

/-- The token stands in prefix position, as far as the tree says: it starts an expression wherever
it stands, it is a sign of the tree, or it is an opening curly bracket with which no branch of a
conditional starts. -/
def Token.StartsIn {α : Type} (tree : Tree α) (token : Token) : Prop :=
  token.kind.startsAlways ∨ token ∈ tree.signs ∨
    token.kind = .openCurly ∧ token.start ∉ tree.bodies

instance {α : Type} (tree : Tree α) (token : Token) : Decidable (token.StartsIn tree) :=
  inferInstanceAs (Decidable (_ ∨ _))

/-! ### Tokens that were taken -/

/-- A token of this kind can be a sign. -/
def TokenKind.IsSign (kind : TokenKind) : Prop :=
  kind = .plus ∨ kind = .dash

/-- A token of this kind never starts an expression unless it is a sign. -/
def TokenKind.IsSkipped (kind : TokenKind) : Prop :=
  kind.startsAlways = false ∧ kind ≠ .openCurly

instance (kind : TokenKind) : Decidable kind.IsSkipped :=
  inferInstanceAs (Decidable (_ ∧ _))

theorem TokenKind.IsSign.isSkipped {kind : TokenKind} (h : kind.IsSign) : kind.IsSkipped := by
  rcases h with rfl | rfl <;> decide

theorem TokenKind.IsSign.ne_eof {kind : TokenKind} (h : kind.IsSign) : kind ≠ .eof := by
  rcases h with rfl | rfl <;> decide

/-- A token that was taken, and whether an expression was started with it. -/
structure Taken where
  token : Token
  starts : Bool

namespace Taken

/-- What is logged for a token. -/
def entry? (taken : Taken) : Option LogEntry :=
  if taken.starts then some (.operand taken.token.kind taken.token.start.offset) else none

/-- What was logged for some tokens, the latest first. -/
def logged (taken : List Taken) : List LogEntry :=
  (taken.filterMap entry?).reverse

theorem logged_append (taken later : List Taken) :
    logged (taken ++ later) = logged later ++ logged taken := by
  rw [logged, List.filterMap_append, List.reverse_append]
  rfl

end Taken

/-- Which of the tokens that were taken started expressions: signs did if they are among the given
ones, curly brackets if they are not where one of the given bodies starts, and the others by their
kind. -/
structure Accounts (signs : List Token) (bodies : List Position) (taken : List Taken) : Prop where
  signs : ∀ token, token ∈ signs ↔ token.kind.IsSign ∧ ⟨token, true⟩ ∈ taken
  bodies : ∀ position, position ∈ bodies ↔
    ∃ token, token.kind = .openCurly ∧ token.start = position ∧ ⟨token, false⟩ ∈ taken
  others : ∀ each ∈ taken, ¬ each.token.kind.IsSign → each.token.kind ≠ .openCurly →
    each.starts = each.token.kind.startsAlways

namespace Accounts

variable {signs signs' : List Token} {bodies bodies' : List Position} {taken later : List Taken}
  {token : Token}

theorem nil : Accounts [] [] [] :=
  ⟨by simp, by simp, by simp⟩

theorem append (h : Accounts signs bodies taken) (h' : Accounts signs' bodies' later) :
    Accounts (signs ++ signs') (bodies ++ bodies') (taken ++ later) where
  signs token := by
    rw [List.mem_append, h.signs, h'.signs, List.mem_append, and_or_left]
  bodies position := by
    simp only [List.mem_append, h.bodies, h'.bodies, and_or_left, exists_or]
  others := List.forall_mem_append.2 ⟨h.others, h'.others⟩

theorem congr (h : Accounts signs bodies taken) (same : ∀ token, token ∈ signs' ↔ token ∈ signs)
    (same' : ∀ position, position ∈ bodies' ↔ position ∈ bodies) :
    Accounts signs' bodies' taken :=
  ⟨fun token => (same token).trans (h.signs token),
    fun position => (same' position).trans (h.bodies position), h.others⟩

/-- A token that starts an expression wherever it stands. -/
theorem start (h : token.kind.startsAlways) : Accounts [] [] [⟨token, true⟩] where
  signs other := by
    refine iff_of_false List.not_mem_nil ?_
    rintro ⟨isSign, mem⟩
    cases List.mem_singleton.1 mem
    rw [isSign.isSkipped.1] at h
    cases h
  bodies position := by simp
  others := List.forall_mem_singleton.2 fun _ _ => h.symm

theorem skipped (h : token.kind.IsSkipped) : Accounts [] [] [⟨token, false⟩] where
  signs other := by simp
  bodies position := by
    refine iff_of_false List.not_mem_nil ?_
    rintro ⟨other, isOpening, -, mem⟩
    cases List.mem_singleton.1 mem
    exact h.2 isOpening
  others := List.forall_mem_singleton.2 fun _ _ => h.1.symm

theorem sign (h : token.kind.IsSign) : Accounts [token] [] [⟨token, true⟩] where
  signs other := by
    rw [List.mem_singleton, List.mem_singleton, Taken.mk.injEq, and_iff_left rfl]
    exact ⟨fun same => ⟨same ▸ h, same⟩, And.right⟩
  bodies position := by simp
  others := List.forall_mem_singleton.2 fun notSign _ => absurd h notSign

theorem opening (h : token.kind = .openCurly) : Accounts [] [] [⟨token, true⟩] where
  signs other := by
    refine iff_of_false List.not_mem_nil ?_
    rintro ⟨isSign, mem⟩
    cases List.mem_singleton.1 mem
    exact isSign.isSkipped.2 h
  bodies position := by simp
  others := List.forall_mem_singleton.2 fun _ notOpening => absurd h notOpening

theorem body (h : token.kind = .openCurly) : Accounts [] [token.start] [⟨token, false⟩] where
  signs other := by simp
  bodies position := by
    rw [List.mem_singleton]
    constructor
    · rintro rfl
      exact ⟨token, h, rfl, List.mem_singleton_self _⟩
    · rintro ⟨other, -, rfl, mem⟩
      cases List.mem_singleton.1 mem
      rfl
  others := List.forall_mem_singleton.2 fun _ notOpening => absurd h notOpening

/-! ### What the tree tells -/

variable {α : Type} {tree : Tree α}

/-- Where no two tokens start at one place, the tree tells which of them started expressions. -/
theorem starts_iff (h : Accounts tree.signs tree.bodies taken)
    (distinct : (taken.map fun each => each.token.start).Nodup) {each : Taken}
    (mem : each ∈ taken) : each.starts = true ↔ each.token.StartsIn tree := by
  obtain ⟨token, starts⟩ := each
  have same {other : Taken} (mem' : other ∈ taken) (start : other.token.start = token.start) :
      other = ⟨token, starts⟩ :=
    List.inj_on_of_nodup_map distinct mem' mem start
  have isSigned : token ∈ tree.signs ↔ token.kind.IsSign ∧ starts = true := by
    rw [h.signs]
    refine and_congr_right fun _ => ⟨fun mem' => ?_, fun isStart => isStart ▸ mem⟩
    exact (Taken.mk.inj (same mem' rfl)).2.symm
  by_cases isSign : token.kind.IsSign
  · obtain ⟨notAlways, notOpening⟩ := isSign.isSkipped
    simp [Token.StartsIn, notAlways, notOpening, isSigned, isSign]
  · by_cases isOpening : token.kind = .openCurly
    · have isBody : token.start ∈ tree.bodies ↔ starts = false := by
        rw [h.bodies]
        constructor
        · rintro ⟨other, -, start, mem'⟩
          exact (Taken.mk.inj (same mem' start)).2.symm
        · rintro rfl
          exact ⟨token, isOpening, rfl, mem⟩
      simp [Token.StartsIn, isOpening, isSigned, isBody, TokenKind.startsAlways,
        TokenKind.isLiteral]
    · have known := h.others _ mem isSign isOpening
      simp [Token.StartsIn, isSigned, isSign, isOpening, ← known]

/-- The end of the input is not in prefix position. -/
theorem not_startsIn_of_eof (h : Accounts tree.signs tree.bodies taken)
    (isEnd : token.kind = .eof) : ¬ token.StartsIn tree := by
  have notSign : token ∉ tree.signs := fun mem => ((h.signs token).1 mem).1.ne_eof isEnd
  simp [Token.StartsIn, isEnd, notSign, TokenKind.startsAlways, TokenKind.isLiteral]

/-- What was logged is one entry for each token in prefix position. -/
theorem entries_eq (h : Accounts tree.signs tree.bodies taken)
    (distinct : (taken.map fun each => each.token.start).Nodup) :
    taken.filterMap Taken.entry? =
      ((taken.map Taken.token).filter (·.StartsIn tree)).map
        fun token => .operand token.kind token.start.offset := by
  rw [List.filter_map, List.map_map, ← List.filterMap_eq_map, List.filterMap_filter]
  refine List.filterMap_congr fun each mem => ?_
  rw [Taken.entry?]
  by_cases starts : each.starts = true
  · have isStart := (h.starts_iff distinct mem).1 starts
    simp [starts, isStart]
  · have notStart := mt (h.starts_iff distinct mem).2 starts
    simp [starts, notStart]

end Accounts

end ExprCheck
