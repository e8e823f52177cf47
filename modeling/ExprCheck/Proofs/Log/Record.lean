import ExprCheck.Check
import ExprCheck.Proofs.Log.Checking
import ExprCheck.Proofs.Log.Reading
import ExprCheck.Proofs.Token.Tiling
import ExprCheck.Proofs.Typing.Derivation

/-!
# The log as a record

The log of a program that is read and checked says what was read and what was found, and nothing
else:

* `parse_log`: the tokens in prefix position and the number of expressions.
* `Scanner.distinct_starts`: in a source that 32 bits can measure no two tokens start at one place,
  so the tree of the program tells which of its tokens are in prefix position.
* `check_entries`: what reading has logged, then an entry for each operator between operands, then
  the type of the program.
* `TypedExpr.operatorLine?`: the line for a node of a typed tree, if it has one.
* `check_log`: the lines that all these entries are written as.
-/

namespace ExprCheck

open ParserM

/-- The log of a program that could be read: which of its tokens started expressions, and how many
expressions it has. -/
theorem parse_log {σ : Type} [TokenSource σ] {source : σ} {expr : Expr}
    (ok : (parse source).result = .ok expr) :
    ∃ items span taken last, expr = .block () items span ∧
      TokenSource.tokens source = taken.map Taken.token ++ [last] ∧ last.kind = .eof ∧
      (parse source).log = taken.filterMap Taken.entry? ++ [.program items.length] ∧
      Accounts expr.signs expr.bodies taken := by
  obtain ⟨after, ran⟩ := Parser.ok_of_outcome ok
  have records := program_records source
  rw [Leads, ran] at records
  obtain ⟨items, span, taken, last, isBlock, all, isEnd, written, accounts⟩ := records
  refine ⟨items, span, taken, last, isBlock, all, isEnd, ?_, accounts⟩
  rw [parse, Parser.outcome, ran]
  simp [written, Taken.logged]

variable {source : String}

/-- No two tokens of a source start at one place. -/
theorem Scanner.distinct_starts (file : String) (short : source.utf8ByteSize < UInt32.size) :
    ((TokenSource.tokens (Scanner.ofSource source file)).map Token.start).Nodup := by
  rw [List.Nodup, List.pairwise_map]
  refine (Scanner.starts_ordered file short).imp fun {token later} order same => ?_
  rw [same] at order
  exact absurd order (Nat.lt_irrefl _)

/-- For a program that could be read and checked, the log has an entry for each token in prefix
position, in the order of the source; the number of expressions; an entry for each operator between
operands, in post-order; and the type of the program. -/
theorem check_entries {file : String} (short : source.utf8ByteSize < UInt32.size)
    {typed : TypedExpr} (ok : (check (Scanner.ofSource source file)).result = .ok typed) :
    ∃ ty items span, typed = .block ty items span ∧
      let starting := (TokenSource.tokens (Scanner.ofSource source file)).filter (·.StartsIn typed)
      starting.Pairwise (fun token later => token.start.offset < later.start.offset) ∧
      (check (Scanner.ofSource source file)).log =
        starting.map (fun token => .operand token.kind token.start.offset) ++
          .program items.length :: (TypedExpr.entries typed.postOrder ++ [.checked ty]) := by
  obtain ⟨expr, read, checked⟩ := Logged.result_bind_ok.1 ok
  obtain ⟨items, span, taken, last, isBlock, all, isEnd, reading, accounts⟩ := parse_log read
  have inferred := Expr.typeCheck_ok.1 checked
  obtain rfl := (TypedAs.of_nodes (infer_sound inferred)).erase
  rw [Tree.erase, Tree.signs_map, Tree.bodies_map] at accounts
  have distinct := Scanner.distinct_starts file short
  rw [all, List.map_append, List.map_map] at distinct
  have entries := accounts.entries_eq (List.Nodup.of_append_left distinct)
  rw [isBlock] at inferred
  obtain ⟨typedItems, each, rfl⟩ := Expr.infer_block_ok.1 inferred
  refine ⟨_, typedItems, span, rfl, ?_, ?_⟩
  · exact ((Scanner.starts_ordered file short).sublist List.filter_sublist).imp
      fun order => UInt32.lt_iff_toNat_lt.2 order
  · rw [check, Logged.log_bind_of_ok _ read, Expr.typeCheck_log checked, reading, entries, all,
      List.filter_append, List.filter_singleton, each.length_eq]
    simp [accounts.not_startsIn_of_eof isEnd, Tree.note]

/-! ### The lines -/

/-- The line for a node of a typed tree: for an operator between operands, the types of the
operands around its text, and the type that it gives. -/
def TypedExpr.operatorLine? : TypedExpr → Option String
  | .binary ty left operator right _ =>
    some ("TRACE " ++ left.note.name ++ " " ++ operator.value ++ " " ++ right.note.name ++ " -> " ++
      ty.name)
  | _ => none

theorem TypedExpr.lines_entries (nodes : List TypedExpr) :
    (entries nodes).map LogEntry.line = nodes.filterMap operatorLine? := by
  rw [entries, List.map_filterMap]
  refine List.filterMap_congr fun node _ => ?_
  cases node with
  | binary ty left operator right span => exact congrArg some (LogEntry.line_operator ..)
  | _ => rfl

/-- **The log is a record of what was read and found.** For a program that could be read and
checked, it has a line for each token in prefix position, with its kind and its place, in the order
of the source; a line with the number of expressions; a line for each operator between operands, in
post-order, with the types of the operands and of the result; and a line with the type of the
program. -/
theorem check_log {file : String} (short : source.utf8ByteSize < UInt32.size) {typed : TypedExpr}
    (ok : (check (Scanner.ofSource source file)).result = .ok typed) :
    ∃ ty items span, typed = .block ty items span ∧
      let starting := (TokenSource.tokens (Scanner.ofSource source file)).filter (·.StartsIn typed)
      starting.Pairwise (fun token later => token.start.offset < later.start.offset) ∧
      (check (Scanner.ofSource source file)).log.map LogEntry.line =
        starting.map (fun token =>
            "TRACE nud " ++ token.kind.name ++ " at " ++ toString token.start.offset.toNat) ++
          ("DEBUG parsed " ++ toString items.length ++ " top-level expressions") ::
            (typed.postOrder.filterMap TypedExpr.operatorLine? ++
              ["DEBUG type checked tree as " ++ ty.name]) := by
  obtain ⟨ty, items, span, isBlock, ordered, entries⟩ := check_entries short ok
  refine ⟨ty, items, span, isBlock, ordered, ?_⟩
  simp only [entries, List.map_append, List.map_cons, List.map_nil, List.map_map,
    Function.comp_def, TypedExpr.lines_entries, LogEntry.line_operand, LogEntry.line_program,
    LogEntry.line_checked]

/-- A conditional whose bodies hold a sign and a block: the brackets of the bodies are not logged,
that of the block is. -/
theorem check_log_branches :
    let source := Scanner.ofSource "if 1 < 2 \x7b -3 \x7d else \x7b \x7b 4 \x7d \x7d" "shell"
    (∃ typed ty items span, (check source).result = .ok typed ∧ typed = .block ty items span ∧
      ((TokenSource.tokens source).filter (·.StartsIn typed)).Pairwise
        (fun token later => token.start.offset < later.start.offset)) ∧
      (check source).log.map LogEntry.line = ["TRACE nud If at 0", "TRACE nud Integer at 3",
        "TRACE nud Integer at 7", "TRACE nud Dash at 11", "TRACE nud Integer at 12",
        "TRACE nud OpenCurly at 23", "TRACE nud Integer at 25",
        "DEBUG parsed 1 top-level expressions", "TRACE Int < Int -> Bool",
        "DEBUG type checked tree as Int"] := by
  intro source
  obtain ⟨typed, ok⟩ : ∃ typed, (check source).result = .ok typed :=
    exists_ok_of_isOk (by decide +kernel)
  obtain ⟨ty, items, span, isBlock, ordered, -⟩ := check_log (by decide) ok
  exact ⟨⟨typed, ty, items, span, ok, isBlock, ordered⟩, by decide +kernel⟩

end ExprCheck
