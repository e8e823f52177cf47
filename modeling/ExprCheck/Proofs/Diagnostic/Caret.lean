import ExprCheck.Diagnostic.Excerpt
import ExprCheck.Proofs.Parser.Extent
import ExprCheck.Proofs.Parser.Refusal
import ExprCheck.Proofs.Text.Lines
import ExprCheck.Tree.Equality

/-!
# The arrow of a diagnostic points at the culprit

* `Reports source file diagnostic`: the diagnostics that scanning, reading and checking a source can
  end with.
* `Reports.startsToken`: each of them is at the start of a token, the end of the input included.
* `Tiles.start_of_mem`: a token starts at a character that is no layout, or at the end of the text.
* `Diagnostic.render_showsArrow`: in what is shown, the line stands behind a lead, and the arrow
  behind a stem that is as much longer as the column says.
* `diagnostic_shown`: every diagnostic of a source is shown with an excerpt, and its arrow stands
  below the character that the diagnostic is about.
-/

namespace ExprCheck

open Text (byteSize byteSize_append)

/-! ### The positions of diagnostics -/

/-- Scanning, reading or checking a source ends with a diagnostic. -/
inductive Reports (source file : String) : Diagnostic → Prop where
  | tokenize {diagnostic} :
      tokenize source file = .error diagnostic → Reports source file diagnostic
  | parse {diagnostic} :
      (parse (Scanner.ofSource source file)).result = .error diagnostic →
      Reports source file diagnostic
  | parseExpression {diagnostic} :
      (parseExpression (Scanner.ofSource source file)).result = .error diagnostic →
      Reports source file diagnostic
  | typeCheck {expr diagnostic} :
      (ExprCheck.parse (Scanner.ofSource source file)).result = .ok expr ∨
        (ExprCheck.parseExpression (Scanner.ofSource source file)).result = .ok expr →
      expr.typeCheck.result = .error diagnostic → Reports source file diagnostic

/-- A position at which a token of a source starts. -/
def StartsToken {σ : Type} [TokenSource σ] (source : σ) (position : Position) : Prop :=
  ∃ token ∈ TokenSource.tokens source, token.start = position

section Source

variable {σ : Type} [TokenSource σ] {source : σ} {diagnostic : Diagnostic}

/-- What a step refuses stands at a token. -/
theorem ParserM.Refuses.startsToken {symbol : Grammar.Symbol} {step : ParserM σ Expr}
    (refuses : Refuses symbol step (Parser.ofSource Rules.standard source))
    (failed : ((Parser.ofSource Rules.standard source).outcome step).result = .error diagnostic) :
    StartsToken source diagnostic.position := by
  obtain ⟨after, position, taken, tokens, -⟩ := Parser.failed_of_error refuses failed
  obtain ⟨later, eq⟩ := after.tokens_eq_cons
  refine ⟨after.current, ?_, position.symm⟩
  show after.current ∈ (Parser.ofSource Rules.standard source).tokens
  rw [tokens, eq]
  exact List.mem_append_right _ List.mem_cons_self

end Source

variable {source file : String} {diagnostic : Diagnostic}

/-- A fault of a tree that was read from a source is at a token of the source. -/
theorem startsToken_of_typeCheck {expr : Expr} (short : source.utf8ByteSize < UInt32.size)
    (read : (parse (Scanner.ofSource source file)).result = .ok expr ∨
      (parseExpression (Scanner.ofSource source file)).result = .ok expr)
    (failed : expr.typeCheck.result = .error diagnostic) :
    StartsToken (Scanner.ofSource source file) diagnostic.position := by
  obtain ⟨node, mem, culprit⟩ := Expr.typeCheck_error failed
  have inPlace : InPlace file source.utf8ByteSize (StartsToken (Scanner.ofSource source file)) 0
      (TokenSource.tokens (Scanner.ofSource source file)) :=
    Scanner.inPlace file short fun token mem => ⟨token, mem, rfl⟩
  rcases read with read | read
  · obtain ⟨items, last, -, row, rfl⟩ := parse_sound read
    obtain ⟨_, fit, -⟩ := row.allFit (fun _ _ _ reads => reads.fits) inPlace
    rcases List.mem_cons.1 mem with rfl | mem
    · exact absurd culprit List.not_mem_nil
    · exact (fit.nodes node mem).culprits _ culprit
  · obtain ⟨last, -, reads⟩ := parseExpression_sound read
    obtain ⟨_, fits, -⟩ := reads.fits 0 inPlace
    exact (fits.nodes node mem).culprits _ culprit

/-- **Every diagnostic of a source is at a token.** -/
theorem Reports.startsToken (short : source.utf8ByteSize < UInt32.size)
    (h : Reports source file diagnostic) :
    StartsToken (Scanner.ofSource source file) diagnostic.position := by
  cases h with
  | tokenize failed =>
    obtain ⟨token, mem, -, rfl⟩ := tokenize_error failed
    exact ⟨token, mem, rfl⟩
  | parse failed => exact (ParserM.program_refuses rfl).startsToken failed
  | parseExpression failed => exact (ParserM.soleExpression_refuses rfl).startsToken failed
  | typeCheck read failed => exact startsToken_of_typeCheck short read failed

/-- A token starts at a character that is no layout, or at the end of the text. -/
theorem Tiles.start_of_mem {offset : Nat} {text : List Char} {tokens : List Token}
    (h : Tiles file offset text tokens) (short : offset + byteSize text < UInt32.size) :
    ∀ token ∈ tokens,
      (token.kind = .eof ∧ token.start.bytes = offset + byteSize text) ∨
        token.kind ≠ .eof ∧ ∃ before c after, text = before ++ c :: after ∧
          token.start.bytes = offset + byteSize before ∧ ¬ Cursor.isLayout c := by
  induction h with
  | last _ =>
    refine List.forall_mem_singleton.2 (.inl ⟨rfl, ?_⟩)
    exact Position.bytes_ofBytes short file
  | @token offset gap c text rest token tokens _ notLayout notEnd _ span _ ih =>
    rw [byteSize_append, byteSize_append] at short ⊢
    obtain ⟨start, -⟩ := Span.bytes_of_ofBytes span (Nat.le_add_right _ _) (by omega)
    refine List.forall_mem_cons.2 ⟨.inr ⟨notEnd, gap, c, text ++ rest, rfl, start, notLayout⟩, ?_⟩
    intro later mem
    rcases ih (by omega) later mem with ⟨isEnd, bytes⟩ |
      ⟨notEnd, before, d, after, rfl, bytes, notLayout⟩
    · exact .inl ⟨isEnd, by omega⟩
    · refine .inr ⟨notEnd, gap ++ (c :: text ++ before), d, after, by simp, ?_, notLayout⟩
      rw [byteSize_append, byteSize_append]
      omega

/-! ### Lines without their indentation -/

namespace Diagnostic

open Text (Location)

theorem isLayout_of_isIndent {c : Char} (h : isIndent c) : Cursor.isLayout c := by
  simp only [isIndent, Bool.or_eq_true, beq_iff_eq] at h
  rcases h with rfl | rfl <;> rfl

theorem indentation_append_le {c : Char} (h : ¬ isIndent c) (left right : List Char) :
    indentation (left ++ c :: right) ≤ left.length := by
  unfold indentation
  induction left with
  | nil =>
    rw [List.nil_append, List.takeWhile_cons_of_neg h]
  | cons d left ih =>
    rw [List.cons_append]
    by_cases isIndent : isIndent d
    · rw [List.takeWhile_cons_of_pos isIndent]
      exact Nat.succ_le_succ ih
    · rw [List.takeWhile_cons_of_neg isIndent]
      exact Nat.zero_le _

/-- A character behind the indentation stands as many characters further to the left. -/
theorem getElem?_dropWhile_isIndent {text : List Char} {column : Nat}
    (le : indentation text ≤ column) :
    (text.dropWhile isIndent)[column - indentation text]? = text[column]? := by
  have parts : text.takeWhile isIndent ++ text.dropWhile isIndent = text :=
    List.takeWhile_append_dropWhile
  conv_rhs => rw [← parts]
  exact (List.getElem?_append_right le).symm

/-- The indentation of a line ends before its newline. -/
theorem indentation_le_endColumn (line : List Char) :
    indentation line ≤ Text.endColumn line := by
  have noNewline : ∀ c ∈ line.takeWhile isIndent, decide (c ≠ '\n') = true := by
    intro c mem
    have isIndent : isIndent c := List.mem_takeWhile_imp mem
    rw [decide_eq_true_eq]
    rintro rfl
    cases isIndent
  have all := List.filter_eq_self.2 noNewline
  unfold indentation Text.endColumn
  rw [← all]
  exact ((List.takeWhile_sublist _).filter _).length_le

theorem newline_not_mem_trimEnd {line : List Char} (h : '\n' ∉ line.dropLast) :
    '\n' ∉ Text.trimEnd line := by
  rcases List.eq_nil_or_concat line with rfl | ⟨body, last, rfl⟩
  · exact List.not_mem_nil
  · rw [List.concat_eq_append, List.dropLast_concat] at h
    rw [List.concat_eq_append, Text.trimEnd, List.mem_reverse, List.reverse_append,
      List.reverse_singleton, List.singleton_append]
    by_cases isBlank : Text.isBlank last
    · rw [List.dropWhile_cons_of_pos isBlank]
      exact fun mem => h (List.mem_reverse.1 ((List.dropWhile_sublist _).subset mem))
    · rw [List.dropWhile_cons_of_neg isBlank]
      refine List.not_mem_cons_of_ne_of_not_mem ?_ (mt List.mem_reverse.1 h)
      rintro rfl
      exact isBlank (by decide)

/-- The line that is shown contains no newline. -/
theorem newline_not_mem_shownLine {line : List Char} (h : '\n' ∉ line.dropLast) :
    '\n' ∉ shownLine line := by
  refine newline_not_mem_trimEnd fun mem => h ?_
  have parts : line.takeWhile isIndent ++ line.dropWhile isIndent = line :=
    List.takeWhile_append_dropWhile
  have notNil : line.dropWhile isIndent ≠ [] := by
    intro isNil
    rw [isNil] at mem
    exact List.not_mem_nil mem
  rw [← parts, List.dropLast_append_of_ne_nil notNil]
  exact List.mem_append_right _ mem

/-! ### What is shown -/

/-- A line stands in a shown text behind a lead, and an arrow on the next line points at one of its
columns. -/
def ShowsArrow (shown : String) (line : List Char) (column : Nat) : Prop :=
  ∃ above lead stem,
    shown = above ++ "\n" ++ (lead ++ String.ofList line) ++ "\n" ++ (stem ++ "^") ++ "\n" ∧
      '\n' ∉ lead.toList ∧ '\n' ∉ line ∧ '\n' ∉ stem.toList ∧
      stem.length = lead.length + column

theorem newline_not_mem_toString (number : Nat) : '\n' ∉ (toString number).toList := by
  show '\n' ∉ (String.ofList (Nat.toDigits 10 number)).toList
  rw [String.toList_ofList]
  intro mem
  have isDigit := Nat.isDigit_of_mem_toDigits (show 0 < 10 by decide) (Nat.le_refl 10) mem
  cases isDigit

theorem newline_not_mem_alignRight {text : String} (h : '\n' ∉ text.toList) (width : Nat) :
    '\n' ∉ (Text.alignRight width text).toList := by
  rw [Text.alignRight, String.toList_append, Text.gap, String.toList_ofList, List.mem_append]
  rintro (mem | mem)
  · cases List.eq_of_mem_replicate mem
  · exact h mem

/-- The arrow points at the column of the location. -/
theorem render_showsArrow {diagnostic : Diagnostic} {source : String} {location : Location}
    (found : Text.locate? source diagnostic.position.offset.toNat = some location)
    (isLine : '\n' ∉ location.text.toList.dropLast) (path : String) :
    ShowsArrow (diagnostic.render source path) (shownLine location.text.toList)
      (location.column - indentation location.text.toList) := by
  generalize columnEq : location.column - indentation location.text.toList = column
  let number := toString location.line
  let margin := Text.alignRight (number.length + 2) "|"
  let dashes := String.ofList (List.replicate column '-')
  have marginLength : margin.length = number.length + 2 :=
    (Text.length_alignRight _ "|").trans (Nat.max_eq_left (Nat.le_add_left 1 (number.length + 1)))
  have dashesLength : dashes.length = column := by
    rw [String.length_ofList, List.length_replicate]
  refine ⟨diagnostic.headline ++ "\n-> " ++ path ++ "\n" ++ margin, number ++ " | ",
    margin ++ " " ++ dashes, ?_, ?_, newline_not_mem_shownLine isLine, ?_, ?_⟩
  · have arrowEq : arrow column = dashes ++ "^" := String.ofList_append
    rw [render, found]
    simp only [excerpt, columnEq, arrowEq, String.append_assoc]
    rfl
  · rw [String.toList_append, List.mem_append]
    rintro (mem | mem)
    · exact newline_not_mem_toString _ mem
    · revert mem
      decide
  · rw [String.toList_append, String.toList_append, List.mem_append, List.mem_append]
    rintro ((mem | mem) | mem)
    · exact newline_not_mem_alignRight (by decide) _ mem
    · revert mem
      decide
    · rw [String.toList_ofList] at mem
      cases List.eq_of_mem_replicate mem
  · rw [String.length_append, String.length_append, String.length_append, marginLength,
      dashesLength]
    rfl

end Diagnostic

open Diagnostic (indentation isIndent shownLine ShowsArrow)

/-- **Every diagnostic can be shown, and its arrow points at the culprit.** A diagnostic that
scanning, reading or checking a source ends with has a line and a column, and the column is not left
of the part of the line that is shown. Below that column stands the arrow. Unless the diagnostic is
about the end of the source, the character in that column is the one at its offset, and a token
starts with it. -/
theorem diagnostic_shown {source file : String} {diagnostic : Diagnostic}
    (short : source.utf8ByteSize < UInt32.size) (h : Reports source file diagnostic)
    (path : String) :
    ∃ location, Text.locate? source diagnostic.position.offset.toNat = some location ∧
      indentation location.text.toList ≤ location.column ∧
      ShowsArrow (diagnostic.render source path) (shownLine location.text.toList)
        (location.column - indentation location.text.toList) ∧
      (diagnostic.position.bytes ≠ source.utf8ByteSize →
        ∃ before c after, source.toList = before ++ c :: after ∧
          byteSize before = diagnostic.position.bytes ∧
          (location.text.toList.dropWhile isIndent)[
            location.column - indentation location.text.toList]? = some c ∧
          ∃ token ∈ TokenSource.tokens (Scanner.ofSource source file),
            token.kind ≠ .eof ∧ token.start = diagnostic.position) := by
  obtain ⟨token, mem, start⟩ := h.startsToken short
  have size := Text.byteSize_toList source
  have place :=
    (Scanner.tiles_ofSource source file).start_of_mem (by rwa [Nat.zero_add, size]) token mem
  rw [start, Nat.zero_add, size] at place
  rcases place with ⟨-, bytes⟩ | ⟨notEnd, before, c, after, split, bytes, notLayout⟩
  · obtain ⟨number, line, isLine, found⟩ := Text.locate?_end source
    rw [size, ← bytes] at found
    have noNewline : '\n' ∉ (String.ofList line).toList.dropLast := by
      rw [String.toList_ofList]
      rcases isLine with isLine | rfl
      · exact Text.newline_not_mem_dropLast isLine
      · exact List.not_mem_nil
    refine ⟨_, found, ?_, Diagnostic.render_showsArrow found noNewline path, absurd bytes⟩
    rw [String.toList_ofList]
    exact Diagnostic.indentation_le_endColumn line
  · rw [Nat.zero_add] at bytes
    obtain ⟨number, left, right, isLine, found⟩ := Text.locate?_append_cons split
    rw [← bytes] at found
    have noNewline : '\n' ∉ (String.ofList (left ++ c :: right)).toList.dropLast := by
      rw [String.toList_ofList]
      exact Text.newline_not_mem_dropLast isLine
    have fits : indentation (String.ofList (left ++ c :: right)).toList ≤ left.length := by
      rw [String.toList_ofList]
      refine Diagnostic.indentation_append_le (mt ?_ notLayout) left right
      exact Diagnostic.isLayout_of_isIndent
    refine ⟨_, found, fits, Diagnostic.render_showsArrow found noNewline path, fun _ => ?_⟩
    refine ⟨before, c, after, split, bytes.symm, ?_, token, mem, notEnd, start⟩
    rw [Diagnostic.getElem?_dropWhile_isIndent fits, String.toList_ofList]
    simp

/-- An operator that is out of place, on an indented line behind a character of two bytes. -/
theorem diagnostic_shown_indented :
    "1\n  'é' + * 2\n".utf8ByteSize < UInt32.size ∧
      Reports "1\n  'é' + * 2\n" "sum" ⟨.unexpectedToken "*", ⟨11, "sum"⟩⟩ ∧
      ShowsArrow (Diagnostic.render ⟨.unexpectedToken "*", ⟨11, "sum"⟩⟩ "1\n  'é' + * 2\n" "sum")
        "'é' + * 2".toList 6 := by
  have short : "1\n  'é' + * 2\n".utf8ByteSize < UInt32.size := by decide
  have failed : (parse (Scanner.ofSource "1\n  'é' + * 2\n" "sum")).result =
      .error ⟨.unexpectedToken "*", ⟨11, "sum"⟩⟩ := by decide +kernel
  have there : Text.locate? "1\n  'é' + * 2\n" 11 = some ⟨2, "  'é' + * 2\n", 8⟩ := by decide
  obtain ⟨location, found, -, shows, -⟩ := diagnostic_shown short (.parse failed) "sum"
  obtain rfl := Option.some.inj (there.symm.trans found)
  exact ⟨short, .parse failed, shows⟩

end ExprCheck
