import ExprCheck.Proofs.Parser.Completeness
import ExprCheck.Proofs.Parser.Soundness

/-!
# The entry points

What `parse` and `parseExpression` do, said of the tokens of their source alone:

* `parse_sound`, `parseExpression_sound`: a success is a reading of all the tokens.
* `parse_complete`, `parseExpression_complete`: if the tokens have a reading, the result is its
  tree or the refusal of a deeper tree.
* `parse_shallow`, `parseExpression_shallow`: at most `maxNestingDepth` tokens never make a tree too
  deep, so with `parseExpression_ok` a reading of so few tokens is the result.

Later proofs about whole sources use these and open neither entry point.
-/

namespace ExprCheck

open ParserM

variable {σ : Type}

namespace Parser

variable {α : Type} {step : ParserM σ α} {parser : Parser σ} {done : α → Parser σ → Prop}
  {failed : Diagnostic → Parser σ → Prop}

theorem result_of_ok {value : α} {after : Parser σ} (ran : step parser = .ok value after) :
    (parser.outcome step).result = .ok value := by
  rw [outcome, ran]

theorem result_of_error {diagnostic : Diagnostic} {after : Parser σ}
    (ran : step parser = .error diagnostic after) :
    (parser.outcome step).result = .error diagnostic := by
  rw [outcome, ran]

theorem done_of_ok {value : α} (h : Leads step done failed parser)
    (ok : (parser.outcome step).result = .ok value) : ∃ after, done value after := by
  unfold Leads at h
  unfold Parser.outcome at ok
  cases eq : step parser with
  | ok value' after =>
    rw [eq] at h ok
    cases ok
    exact ⟨after, h⟩
  | error diagnostic after =>
    rw [eq] at ok
    cases ok

theorem failed_of_error {diagnostic : Diagnostic} (h : Leads step done failed parser)
    (error : (parser.outcome step).result = .error diagnostic) :
    ∃ after, failed diagnostic after := by
  unfold Leads at h
  unfold Parser.outcome at error
  cases eq : step parser with
  | ok value after =>
    rw [eq] at error
    cases error
  | error diagnostic' after =>
    rw [eq] at h error
    cases error
    exact ⟨after, h⟩

theorem ok_of_outcome {value : α} (ok : (parser.outcome step).result = .ok value) :
    ∃ after, step parser = .ok value after := by
  cases ran : step parser with
  | ok value' after =>
    rw [result_of_ok ran] at ok
    cases ok
    exact ⟨after, rfl⟩
  | error diagnostic after =>
    rw [result_of_error ran] at ok
    cases ok

theorem error_of_outcome {diagnostic : Diagnostic}
    (error : (parser.outcome step).result = .error diagnostic) :
    ∃ after, step parser = .error diagnostic after := by
  unfold Parser.outcome at error
  cases eq : step parser with
  | ok value after =>
    rw [eq] at error
    cases error
  | error diagnostic' after =>
    rw [eq] at error
    cases error
    exact ⟨after, rfl⟩

end Parser

theorem exists_ok_of_isOk {ε α : Type} {result : Except ε α} (h : result.isOk = true) :
    ∃ value, result = .ok value := by
  cases result with
  | ok value => exact ⟨value, rfl⟩
  | error _ => cases h

/-- A result is the given tree or the refusal of a deeper one. -/
def Logged.IsTreeOrTooDeep (logged : Logged Expr) (expr : Expr) : Prop :=
  logged.result = .ok expr ∨ ∃ diagnostic, logged.result = .error diagnostic ∧
    diagnostic.isTooDeep = true

theorem Parser.isTreeOrTooDeep_of_leads {step : ParserM σ Expr} {parser : Parser σ} {expr : Expr}
    (h : Leads step (fun value _ => value = expr) (fun diagnostic _ => diagnostic.isTooDeep = true)
      parser) : (parser.outcome step).IsTreeOrTooDeep expr := by
  cases result : (parser.outcome step).result with
  | ok value =>
    obtain ⟨_, rfl⟩ := done_of_ok h result
    exact .inl result
  | error diagnostic =>
    obtain ⟨_, tooDeep⟩ := failed_of_error h result
    exact .inr ⟨diagnostic, result, tooDeep⟩

variable [TokenSource σ]

/-- Few tokens are no heavy load. -/
theorem isTooDeep_eq_false_of_few {source : σ} {diagnostic : Diagnostic}
    (few : (TokenSource.tokens source).length ≤ maxNestingDepth + 1)
    (many : diagnostic.isTooDeep → heavy ≤ (TokenSource.tokens source).length) :
    diagnostic.isTooDeep = false := by
  by_contra tooDeep
  have bound := many (by simpa using tooDeep)
  unfold heavy at bound
  omega

theorem load_ofSource (source : σ) :
    (Parser.ofSource Rules.standard source).load = (TokenSource.tokens source).length :=
  Nat.zero_add _

/-- The tree of a program: its expressions, from the beginning of the source to the end. -/
def programTree (source : σ) (items : List Expr) (last : Token) : Expr :=
  .block () items ⟨⟨0, (TokenSource.current source).start.file⟩, last.start⟩

/-! ### Programs -/

theorem program_leads (source : σ) :
    Leads program
      (fun expr _ => ∃ items last, last.kind = .eof ∧
        Row (Reads (.expression .lowest)) (TokenSource.tokens source) items [last] ∧
        expr = programTree source items last)
      (fun diagnostic _ => diagnostic.isTooDeep → heavy ≤ (TokenSource.tokens source).length)
      (Parser.ofSource Rules.standard source) := by
  simp only [program, leads_bind, leads_current, leads_withRemaining, leads_write, leads_pure]
  refine (itemsUntil_leads (expressionWithin_reliable levels 0 (Nat.le_refl _)) _ (Nat.zero_le _)
    rfl (length_tokens_le_remaining _)).mono ?_ ?_
  · intro items after found
    obtain ⟨row, -, ends⟩ := found
    have isEnd : after.current.kind = .eof := ends.elim id id
    rw [after.tokens_of_kind_eof isEnd] at row
    exact ⟨items, after.current, isEnd, row, rfl⟩
  · intro diagnostic _ refused tooDeep
    rw [← load_ofSource]
    exact refused tooDeep

theorem parse_sound {source : σ} {expr : Expr} (h : (parse source).result = .ok expr) :
    ∃ items last, last.kind = .eof ∧
      Row (Reads (.expression .lowest)) (TokenSource.tokens source) items [last] ∧
      expr = programTree source items last := by
  obtain ⟨_, found⟩ := Parser.done_of_ok (program_leads source) h
  exact found

theorem parse_shallow {source : σ} {diagnostic : Diagnostic}
    (few : (TokenSource.tokens source).length ≤ maxNestingDepth + 1)
    (h : (parse source).result = .error diagnostic) : diagnostic.isTooDeep = false := by
  obtain ⟨_, many⟩ := Parser.failed_of_error (program_leads source) h
  exact isTooDeep_eq_false_of_few few many

theorem parse_complete {source : σ} {items : List Expr} {last : Token}
    (isEnd : last.kind = .eof)
    (row : Row (Reads (.expression .lowest)) (TokenSource.tokens source) items [last]) :
    (parse source).IsTreeOrTooDeep (programTree source items last) := by
  have taken : RowTaken σ (TokenSource.tokens source) items [last] :=
    row.mono fun _ _ _ reads => ⟨reads, reads.taken⟩
  refine Parser.isTreeOrTooDeep_of_leads ?_
  simp only [program, leads_bind, leads_current, leads_withRemaining, leads_write, leads_pure]
  refine (itemsUntil_takes taken isEnd rfl ⟨rfl, rfl⟩ (TokenSource.length_tokens_le _)).mono ?_
    fun _ _ refused => refused
  intro items' after found
  obtain ⟨rfl, there⟩ := found
  have isLast : after.current = last := there.current
  rw [programTree, ← isLast]
  rfl

/-! ### Single expressions -/

theorem soleExpression_leads (source : σ) :
    Leads soleExpression
      (fun expr _ => ∃ last, last.kind = .eof ∧
        Reads (.expression .lowest) (TokenSource.tokens source) expr [last])
      (fun diagnostic _ => diagnostic.isTooDeep → heavy ≤ (TokenSource.tokens source).length)
      (Parser.ofSource Rules.standard source) := by
  simp only [soleExpression, leads_bind, leads_current]
  refine (expression_meets .lowest rfl).mono ?_ ?_
  · intro expr after found
    obtain ⟨reads, -⟩ := found
    split
    · next isEnd =>
      rw [after.tokens_of_kind_eof isEnd] at reads
      exact ⟨after.current, isEnd, reads⟩
    · intro tooDeep
      rw [Token.isTooDeep_trailing] at tooDeep
      cases tooDeep
  · intro diagnostic _ refused tooDeep
    rw [← load_ofSource]
    exact refused tooDeep

theorem parseExpression_sound {source : σ} {expr : Expr}
    (h : (parseExpression source).result = .ok expr) :
    ∃ last, last.kind = .eof ∧
      Reads (.expression .lowest) (TokenSource.tokens source) expr [last] := by
  obtain ⟨_, found⟩ := Parser.done_of_ok (soleExpression_leads source) h
  exact found

theorem parseExpression_shallow {source : σ} {diagnostic : Diagnostic}
    (few : (TokenSource.tokens source).length ≤ maxNestingDepth + 1)
    (h : (parseExpression source).result = .error diagnostic) : diagnostic.isTooDeep = false := by
  obtain ⟨_, many⟩ := Parser.failed_of_error (soleExpression_leads source) h
  exact isTooDeep_eq_false_of_few few many

theorem parseExpression_complete {source : σ} {expr : Expr} {last : Token}
    (isEnd : last.kind = .eof)
    (reads : Reads (.expression .lowest) (TokenSource.tokens source) expr [last]) :
    (parseExpression source).IsTreeOrTooDeep expr := by
  refine Parser.isTreeOrTooDeep_of_leads ?_
  simp only [soleExpression, leads_bind, leads_current]
  refine (reads.taken levels (Parser.ofSource Rules.standard source) ⟨rfl, rfl⟩).mono ?_
    fun _ _ refused => refused
  intro expr' after found
  obtain ⟨rfl, there⟩ := found
  simp only [there.current, if_pos isEnd, leads_pure]

/-- Few tokens that have a reading are read as its tree. -/
theorem parseExpression_ok {source : σ} {expr : Expr} {last : Token} (isEnd : last.kind = .eof)
    (reads : Reads (.expression .lowest) (TokenSource.tokens source) expr [last])
    (few : (TokenSource.tokens source).length ≤ maxNestingDepth + 1) :
    (parseExpression source).result = .ok expr := by
  rcases parseExpression_complete isEnd reads with ok | ⟨diagnostic, error, tooDeep⟩
  · exact ok
  · rw [parseExpression_shallow few error] at tooDeep
    cases tooDeep

end ExprCheck
