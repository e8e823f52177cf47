import ExprCheck.Proofs.Tree.Source
import ExprCheck.Log
import Mathlib.Data.List.Forall2

/-!
# The same tokens and trees at other places

* `Correspondence`: which places of two texts correspond, as places where something starts and as
  places where something ends. `Correspondence.exact` is the one of a text with itself.
* `Span.Matches`, `Token.Matches`, `Tree.Matches`, `Diagnostic.Matches`, `LogEntry.Matches`: the
  same but for the places, and these correspond.
* `Tree.Matches.unplaced`: trees that match are equal up to their places.
* `Tree.Matches.eq`: and where places correspond to themselves alone, they are equal.
-/

namespace ExprCheck

/-! ### Rows of things that are the same -/

section Rows

variable {α β : Type} {same : α → α → Prop} {items items' : List α}

/-- What is the same of each two is the same of all. -/
theorem map_eq_of_forall₂ {f : α → β}
    (each : ∀ item ∈ items, ∀ item', same item item' → f item' = f item)
    (h : List.Forall₂ same items items') : items'.map f = items.map f := by
  have both := (List.forall₂_and_left items items').2 ⟨each, h⟩
  have equal : List.Forall₂ Eq (items'.map f) (items.map f) := by
    rw [List.forall₂_map_left_iff, List.forall₂_map_right_iff]
    exact (both.imp fun item item' both => both.1 item' both.2).flip
  rwa [List.forall₂_eq_eq_eq] at equal

theorem eq_of_forall₂ (each : ∀ item ∈ items, ∀ item', same item item' → item' = item)
    (h : List.Forall₂ same items items') : items' = items := by
  have equal := map_eq_of_forall₂ (f := id) each h
  rwa [List.map_id, List.map_id] at equal

end Rows

/-! ### Places that correspond -/

/-- Which places of a text correspond to which places of another, where something starts and where
something ends. -/
structure Correspondence where
  starts : Position → Position → Prop
  stops : Position → Position → Prop
  exists_start : ∀ position, ∃ position', starts position position'
  exists_stop : ∀ position, ∃ position', stops position position'

/-- Every place corresponds to itself alone. -/
def Correspondence.exact : Correspondence where
  starts := Eq
  stops := Eq
  exists_start position := ⟨position, rfl⟩
  exists_stop position := ⟨position, rfl⟩

variable (places : Correspondence)

/-- Stretches between places that correspond. -/
structure Span.Matches (span span' : Span) : Prop where
  start : places.starts span.start span'.start
  stop : places.stops span.stop span'.stop

/-- The same token at places that correspond. -/
structure Token.Matches (token token' : Token) : Prop where
  kind : token'.kind = token.kind
  value : token'.value = token.value
  span : token.span.Matches places token'.span

/-- The same fault at places that correspond. -/
structure Diagnostic.Matches (diagnostic diagnostic' : Diagnostic) : Prop where
  fault : diagnostic'.fault = diagnostic.fault
  position : places.starts diagnostic.position diagnostic'.position

/-- The same event. Where an operand starts is the only place that is logged. -/
inductive LogEntry.Matches : LogEntry → LogEntry → Prop where
  | operand {kind position position'} : places.starts position position' →
      Matches (.operand kind position.offset) (.operand kind position'.offset)
  | program (size) : Matches (.program size) (.program size)
  | operator (left text right result) :
      Matches (.operator left text right result) (.operator left text right result)
  | checked (ty) : Matches (.checked ty) (.checked ty)

/-- The same tree at places that correspond. -/
inductive Tree.Matches {α : Type} : Tree α → Tree α → Prop where
  | literal {note token token'} : token.Matches places token' →
      Matches (literal note token) (literal note token')
  | unary {note operator operator' operand operand' span span'} :
      operator.Matches places operator' → Matches operand operand' → span.Matches places span' →
      Matches (unary note operator operand span) (unary note operator' operand' span')
  | binary {note left left' operator operator' right right' span span'} :
      Matches left left' → operator.Matches places operator' → Matches right right' →
      span.Matches places span' →
      Matches (binary note left operator right span) (binary note left' operator' right' span')
  | ifThen {note condition condition' body body' span span'} :
      Matches condition condition' → Matches body body' → span.Matches places span' →
      Matches (ifThen note condition body span) (ifThen note condition' body' span')
  | ifElse {note condition condition' body body' otherwise otherwise' span span'} :
      Matches condition condition' → Matches body body' → Matches otherwise otherwise' →
      span.Matches places span' →
      Matches (ifElse note condition body otherwise span)
        (ifElse note condition' body' otherwise' span')
  | block {note items items' span span'} :
      List.Forall₂ Matches items items' → span.Matches places span' →
      Matches (block note items span) (block note items' span')

/-- The same program, with expressions that match between a first and a last token that match. A
program starts with its source, whatever is there. -/
inductive Expr.ProgramMatches : Expr → Expr → Prop where
  | of_tokens {items items' first first' last last'} :
      List.Forall₂ (Tree.Matches places) items items' → Token.Matches places first first' →
      Token.Matches places last last' →
      ProgramMatches (.block () items ⟨⟨0, first.start.file⟩, last.start⟩)
        (.block () items' ⟨⟨0, first'.start.file⟩, last'.start⟩)

variable {places}

/-- Every token has one that matches it. -/
theorem Token.exists_matches (places : Correspondence) (token : Token) :
    ∃ token', token.Matches places token' := by
  obtain ⟨start, starts⟩ := places.exists_start token.span.start
  obtain ⟨stop, stops⟩ := places.exists_stop token.span.stop
  exact ⟨⟨token.kind, token.value, ⟨start, stop⟩⟩, rfl, rfl, starts, stops⟩

theorem Token.Matches.unplaced {token token' : Token} (h : token.Matches places token') :
    token'.unplaced = token.unplaced := by
  rw [Token.unplaced, Token.unplaced, h.kind, h.value]

namespace Tree

variable {α : Type}

theorem Matches.span {tree tree' : Tree α} (h : tree.Matches places tree') :
    tree.span.Matches places tree'.span := by
  cases h with
  | literal token => exact token.span
  | unary _ _ span => exact span
  | binary _ _ _ span => exact span
  | ifThen _ _ span => exact span
  | ifElse _ _ _ span => exact span
  | block _ span => exact span

theorem Matches.note {tree tree' : Tree α} (h : tree.Matches places tree') :
    tree'.note = tree.note := by
  cases h <;> rfl

theorem unplacedAll_eq_map (items : List (Tree α)) : unplacedAll items = items.map unplaced := by
  induction items with
  | nil => rfl
  | cons item items ih => rw [unplacedAll, ih, List.map_cons]

/-- Trees that match are equal up to their places. -/
theorem Matches.unplaced {tree tree' : Tree α} (h : tree.Matches places tree') :
    tree'.unplaced = tree.unplaced := by
  induction tree using Tree.induct generalizing tree' with
  | literal note token =>
    cases h with
    | literal token => rw [Tree.unplaced, Tree.unplaced, token.unplaced]
  | unary note operator operand span ih =>
    cases h with
    | unary operator operand _ =>
      rw [Tree.unplaced, Tree.unplaced, operator.unplaced, ih operand]
  | binary note left operator right span ihl ihr =>
    cases h with
    | binary left operator right _ =>
      rw [Tree.unplaced, Tree.unplaced, ihl left, operator.unplaced, ihr right]
  | ifThen note condition body span ihc ihb =>
    cases h with
    | ifThen condition body _ => rw [Tree.unplaced, Tree.unplaced, ihc condition, ihb body]
  | ifElse note condition body otherwise span ihc ihb iho =>
    cases h with
    | ifElse condition body otherwise _ =>
      rw [Tree.unplaced, Tree.unplaced, ihc condition, ihb body, iho otherwise]
  | block note items span ih =>
    cases h with
    | block items _ =>
      rw [Tree.unplaced, Tree.unplaced, unplacedAll_eq_map, unplacedAll_eq_map,
        map_eq_of_forall₂ (fun item mem _ => ih item mem) items]

/-- Rows of trees that match are equal up to their places. -/
theorem unplacedAll_eq_of_matches {items items' : List (Tree α)}
    (h : List.Forall₂ (Matches places) items items') :
    unplacedAll items' = unplacedAll items := by
  rw [unplacedAll_eq_map, unplacedAll_eq_map,
    map_eq_of_forall₂ (fun _ _ _ same => Matches.unplaced same) h]

end Tree

theorem Expr.ProgramMatches.unplaced {expr expr' : Expr} (h : expr.ProgramMatches places expr') :
    expr'.unplaced = expr.unplaced := by
  obtain ⟨items, -, -⟩ := h
  rw [Tree.unplaced, Tree.unplaced, Tree.unplacedAll_eq_of_matches items]

/-! ### Places that correspond to themselves alone -/

section Exact

open ExprCheck.Correspondence (exact)

theorem Span.Matches.eq {span span' : Span} (h : span.Matches exact span') : span' = span := by
  obtain ⟨_, _⟩ := span
  obtain ⟨rfl, rfl⟩ := h
  rfl

theorem Token.matches_exact (token : Token) : token.Matches exact token :=
  ⟨rfl, rfl, rfl, rfl⟩

theorem Token.Matches.eq {token token' : Token} (h : token.Matches exact token') :
    token' = token := by
  obtain ⟨_, _, span⟩ := token'
  obtain ⟨rfl, rfl, same⟩ := h
  obtain rfl : span = token.span := same.eq
  rfl

theorem Diagnostic.Matches.eq {diagnostic diagnostic' : Diagnostic}
    (h : diagnostic.Matches exact diagnostic') : diagnostic' = diagnostic := by
  obtain ⟨_, _⟩ := diagnostic
  obtain ⟨rfl, rfl⟩ := h
  rfl

theorem LogEntry.matches_exact (entry : LogEntry) : entry.Matches exact entry := by
  cases entry with
  | operand kind offset =>
    have start : exact.starts ⟨offset, ""⟩ ⟨offset, ""⟩ := rfl
    exact .operand start
  | program => exact .program _
  | operator => exact .operator _ _ _ _
  | checked => exact .checked _

theorem LogEntry.Matches.eq {entry entry' : LogEntry} (h : entry.Matches exact entry') :
    entry' = entry := by
  cases h with
  | operand start =>
    obtain rfl := start
    rfl
  | program | operator | checked => rfl

theorem Tree.Matches.eq {α : Type} {tree tree' : Tree α} (h : tree.Matches exact tree') :
    tree' = tree := by
  induction tree using Tree.induct generalizing tree' with
  | literal note token =>
    cases h with
    | literal token => rw [token.eq]
  | unary note operator operand span ih =>
    cases h with
    | unary operator operand span => rw [operator.eq, ih operand, span.eq]
  | binary note left operator right span ihl ihr =>
    cases h with
    | binary left operator right span => rw [ihl left, operator.eq, ihr right, span.eq]
  | ifThen note condition body span ihc ihb =>
    cases h with
    | ifThen condition body span => rw [ihc condition, ihb body, span.eq]
  | ifElse note condition body otherwise span ihc ihb iho =>
    cases h with
    | ifElse condition body otherwise span =>
      rw [ihc condition, ihb body, iho otherwise, span.eq]
  | block note items span ih =>
    cases h with
    | block all span =>
      rw [eq_of_forall₂ (fun item mem _ => ih item mem) all, span.eq]

theorem Expr.ProgramMatches.eq {expr expr' : Expr} (h : expr.ProgramMatches exact expr') :
    expr' = expr := by
  obtain ⟨items, first, last⟩ := h
  rw [eq_of_forall₂ (fun _ _ _ same => same.eq) items, first.eq, last.eq]

end Exact

end ExprCheck
