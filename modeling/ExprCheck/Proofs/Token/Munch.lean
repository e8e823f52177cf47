import ExprCheck.Proofs.Token.Longest
import ExprCheck.Proofs.Token.Tiling

/-!
# Every token is the longest lexeme

* `Lexeme.IsMunch`: the longest lexeme that a text starts with, or its first character if it starts
  with none.
* `Cursor.StandsIn`: a cursor over the rest of a source, which knows how many bytes it has passed.
* `Cursor.behind`: the cursor behind so many tokens. It stands in the source, and this is where an
  advanced scanner has read its current token from.
* `Cursor.StandsIn.next_munched`: where a cursor finds more than layout, it reads such a lexeme.
* `scanner_munches`: so does a scanner, however often it has been advanced.

Offsets are counted without a bound here, so a source may be of any length.
-/

namespace ExprCheck

open Text (byteSize byteSize_append)

namespace Lexeme

theorem OfLanguage.kind_ne_unknown {lexeme : Lexeme} (h : lexeme.OfLanguage) :
    lexeme.kind ≠ .unknown := by
  have noWord : ∀ entry ∈ TokenKind.reservedWords, entry.2 ≠ .unknown := by decide
  have noSymbol : ∀ entry ∈ symbols, entry.2 ≠ .unknown := by decide
  cases h with
  | word _ _ isOfWord =>
    rcases isOfWord with mem | ⟨rfl, -⟩
    · exact noWord _ mem
    · exact TokenKind.noConfusion
  | symbol mem => exact noSymbol _ mem
  | integer | float | char | string => exact TokenKind.noConfusion

/-- The longest lexeme that the text starts with, or its first character if there is none. -/
structure IsMunch (text : List Char) (lexeme : Lexeme) : Prop where
  isPrefix : lexeme.text <+: text
  isUnknown_iff : lexeme.kind = .unknown ↔
    ∀ other : Lexeme, other.OfLanguage → ¬ other.text <+: text
  isLongest : lexeme.kind ≠ .unknown → IsLongest text lexeme
  isCharacter : lexeme.kind = .unknown → ∃ c, lexeme = unknown c

theorem next_isMunch (c : Char) (rest : List Char) : IsMunch (c :: rest) (next c rest) := by
  unfold next
  cases found : first? (c :: rest) with
  | none =>
    have isUnknown : (unknown c).kind = .unknown := rfl
    exact ⟨⟨rest, rfl⟩, iff_of_true isUnknown (first?_eq_none_iff.1 found),
      fun known => absurd isUnknown known, fun _ => ⟨c, rfl⟩⟩
  | some lexeme =>
    have isLongest := first?_eq_some_iff.1 found
    have known := isLongest.ofLanguage.kind_ne_unknown
    refine ⟨isLongest.isPrefix, iff_of_false known fun noLexeme => ?_, fun _ => isLongest,
      fun isUnknown => absurd isUnknown known⟩
    exact noLexeme lexeme isLongest.ofLanguage isLongest.isPrefix

end Lexeme

/-! ### Cursors in a source -/

/-- The token is the munch of the source between two cursors, and it knows where it stands. -/
def Token.Munched (source file : String) (start stop : Cursor) (token : Token) : Prop :=
  ∃ before, ∃ lexeme : Lexeme,
    source.toList = before ++ start.rest ∧
    start.rest = lexeme.text ++ stop.rest ∧
    lexeme.IsMunch start.rest ∧
    token = ⟨lexeme.kind, String.ofList lexeme.value,
      Span.ofBytes file (byteSize before) (byteSize (before ++ lexeme.text))⟩

namespace Cursor

/-- The cursor behind so many tokens of a source. -/
def behind (source file : String) (n : Nat) : Cursor :=
  (fun cursor => cursor.next.2)^[n] (ofSource source file)

theorem behind_succ (source file : String) (n : Nat) :
    behind source file (n + 1) = (behind source file n).next.2 :=
  Function.iterate_succ_apply' _ n _

/-- The cursor stands in the source, behind the bytes that it has passed. -/
structure StandsIn (source file : String) (cursor : Cursor) : Prop where
  file : cursor.file = file
  split : ∃ before, source.toList = before ++ cursor.rest ∧ cursor.offset = byteSize before

variable {source file : String} {cursor : Cursor}

theorem standsIn_ofSource (source file : String) : StandsIn source file (ofSource source file) :=
  ⟨rfl, [], rfl, rfl⟩

namespace StandsIn

theorem pass (h : cursor.StandsIn source file) {text : List Char}
    (isPrefix : text <+: cursor.rest) : (cursor.pass text).StandsIn source file := by
  obtain ⟨isFile, before, split, offset⟩ := h
  obtain ⟨more, eq⟩ := isPrefix
  refine ⟨isFile, before ++ text, ?_, ?_⟩
  · rw [Scans.rest_pass eq.symm, List.append_assoc, eq, split]
  · rw [byteSize_append, ← offset]
    rfl

theorem skipLayout (h : cursor.StandsIn source file) : cursor.skipLayout.StandsIn source file :=
  h.pass (List.takeWhile_prefix _)

/-- A cursor that has read a token still stands in the source. -/
theorem next (h : cursor.StandsIn source file) : cursor.next.2.StandsIn source file := by
  cases rest : cursor.skipLayout.rest with
  | nil =>
    rw [next_of_rest_skipLayout_nil rest]
    exact h.skipLayout
  | cons c more =>
    rw [next_of_rest_skipLayout_cons rest]
    exact h.skipLayout.pass (rest ▸ Lexeme.next_prefix c more)

/-- A cursor reads a munch, unless there is nothing but layout. -/
theorem next_munched (h : cursor.StandsIn source file) (notEnd : cursor.skipLayout.rest ≠ []) :
    cursor.next.1.Munched source file cursor.skipLayout cursor.next.2 := by
  obtain ⟨c, rest, eq⟩ := List.exists_cons_of_ne_nil notEnd
  obtain ⟨isFile, before, split, offset⟩ := h.skipLayout
  have munch := Lexeme.next_isMunch c rest
  obtain ⟨more, parts⟩ := munch.isPrefix
  have passed : (cursor.skipLayout.pass (Lexeme.next c rest).text).rest = more :=
    Scans.rest_pass (eq.trans parts.symm)
  rw [next_of_rest_skipLayout_cons eq]
  refine ⟨before, Lexeme.next c rest, split, ?_, ?_, ?_⟩
  · rw [passed, parts, eq]
  · rwa [eq]
  · rw [byteSize_append, ← offset, ← isFile]
    rfl

end StandsIn

theorem standsIn_behind (source file : String) (n : Nat) :
    (behind source file n).StandsIn source file := by
  induction n with
  | zero => exact standsIn_ofSource source file
  | succ n ih => exact behind_succ source file n ▸ ih.next

end Cursor

/-- However often a scanner is advanced, its current token is read behind the ones before. -/
theorem Scanner.iterate_advance_ofSource (source file : String) (n : Nat) :
    TokenSource.advance^[n] (ofSource source file) = ofCursor (Cursor.behind source file n) := by
  induction n with
  | zero => rfl
  | succ n ih =>
    rw [Function.iterate_succ_apply', ih, Cursor.behind_succ]
    rfl

/-- **Scanning takes the longest lexeme.** Wherever a scanner starts a token, behind the tokens
before and the layout there, the text of that token is the longest lexeme of the language that the
rest of the source starts with, and the kind and the value of the token are those of this lexeme.
Only where the rest starts with no lexeme at all, the token is unknown, and then it is one
character. -/
theorem scanner_munches (source file : String) (n : Nat)
    (notEnd : (Cursor.behind source file n).skipLayout.rest ≠ []) :
    (TokenSource.advance^[n] (Scanner.ofSource source file)).current.Munched source file
      (Cursor.behind source file n).skipLayout (Cursor.behind source file (n + 1)) := by
  rw [Scanner.iterate_advance_ofSource, Cursor.behind_succ]
  exact (Cursor.standsIn_behind source file n).next_munched notEnd

/-- A comparison that starts with an assignment, between a name and a character. -/
theorem scanner_munches_comparison :
    (Cursor.behind "a =<'b'" "shell" 1).skipLayout.rest = "=<'b'".toList ∧
      (Cursor.behind "a =<'b'" "shell" 1).skipLayout.rest ≠ [] ∧
      (TokenSource.advance (Scanner.ofSource "a =<'b'" "shell")).current.Munched "a =<'b'" "shell"
        (Cursor.behind "a =<'b'" "shell" 1).skipLayout (Cursor.behind "a =<'b'" "shell" 2) ∧
      (TokenSource.advance (Scanner.ofSource "a =<'b'" "shell")).current.kind = .lessEquals := by
  have rest : (Cursor.behind "a =<'b'" "shell" 1).skipLayout.rest = "=<'b'".toList := by decide
  have notEnd : (Cursor.behind "a =<'b'" "shell" 1).skipLayout.rest ≠ [] := by
    rw [rest]
    decide
  exact ⟨rest, notEnd, scanner_munches "a =<'b'" "shell" 1 notEnd, by decide⟩

end ExprCheck
