import ExprCheck.Diagnostic.Basic
import ExprCheck.Text.Lines
import ExprCheck.Token.Lexeme
import ExprCheck.Token.Source

/-!
# Scanning a source

* `Cursor`: how far a source has been read. `Cursor.next` reads one token.
* `Scanner`: a source of tokens that reads them as they are asked for. A character that starts no
  token comes out as a token of its own, of kind `unknown`.
* `tokenize`: all tokens of a source at once, which fails at the first unknown character.

Spaces, tabs, carriage returns and newlines separate tokens and are skipped. Offsets count bytes.
-/

namespace ExprCheck

/-- How far a source has been read: the bytes passed and the text still to come. -/
structure Cursor where
  file : String
  offset : Nat
  rest : List Char

namespace Cursor

/-- The beginning of a source. -/
def ofSource (source file : String) : Cursor :=
  ⟨file, 0, source.toList⟩

/-- Whether a character only separates tokens. -/
def isLayout (c : Char) : Bool :=
  c == ' ' || c == '\t' || c == '\r' || c == '\n'

/-- The cursor after some text that stands at it. -/
def pass (text : List Char) (cursor : Cursor) : Cursor :=
  { cursor with
    offset := cursor.offset + Text.byteSize text
    rest := cursor.rest.drop text.length }

/-- The cursor after the layout that stands at it. -/
def skipLayout (cursor : Cursor) : Cursor :=
  cursor.pass (cursor.rest.takeWhile isLayout)

/-- The text without its first bytes, or without the characters that these bytes reach into. -/
def dropBytes : Nat → List Char → List Char
  | 0, text => text
  | _ + 1, [] => []
  | bytes + 1, c :: rest => dropBytes (bytes + 1 - c.utf8Size) rest

/-- The cursor some bytes further on, which may lie beyond the end of the source. -/
def skipBytes (bytes : Nat) (cursor : Cursor) : Cursor :=
  { cursor with offset := cursor.offset + bytes, rest := dropBytes bytes cursor.rest }

/-- The token at a cursor that stands at no layout, and the cursor after it. -/
def read (cursor : Cursor) : Token × Cursor :=
  match cursor.rest with
  | [] => (Token.endOfInput (Position.ofBytes cursor.file cursor.offset), cursor)
  | c :: rest =>
    let lexeme := Lexeme.next c rest
    let after := cursor.pass lexeme.text
    (⟨lexeme.kind, String.ofList lexeme.value,
      Span.ofBytes cursor.file cursor.offset after.offset⟩, after)

/-- The next token of a source, and the cursor after it. -/
def next (cursor : Cursor) : Token × Cursor :=
  cursor.skipLayout.read

/-! ### Reading a token makes the rest shorter -/

theorem length_rest_pass (text : List Char) (cursor : Cursor) :
    (cursor.pass text).rest.length = cursor.rest.length - text.length := by
  simp [pass]

theorem dropBytes_nil (bytes : Nat) : dropBytes bytes [] = [] := by
  cases bytes <;> rfl

/-- Only the end of a source reads as the end of the input. -/
theorem rest_read_of_kind_eof (cursor : Cursor) (h : cursor.read.1.kind = .eof) :
    cursor.read.2.rest = [] := by
  unfold read at h ⊢
  split at h
  · assumption
  · exact absurd h (Lexeme.next_proper _ _).2

/-- Reading a token other than the end of the input takes at least one character. -/
theorem length_rest_read_lt (cursor : Cursor) (h : cursor.read.1.kind ≠ .eof) :
    cursor.read.2.rest.length < cursor.rest.length := by
  unfold read at h ⊢
  split at h
  · exact absurd rfl h
  · next c rest eq =>
    have size := List.length_pos_iff.2 (Lexeme.next_proper c rest).1
    simp only [length_rest_pass, eq, List.length_cons]
    omega

theorem rest_next_of_kind_eof (cursor : Cursor) (h : cursor.next.1.kind = .eof) :
    cursor.next.2.rest = [] :=
  rest_read_of_kind_eof _ h

theorem length_rest_next_lt (cursor : Cursor) (h : cursor.next.1.kind ≠ .eof) :
    cursor.next.2.rest.length < cursor.rest.length := by
  have := length_rest_read_lt cursor.skipLayout h
  have skipped := length_rest_pass (cursor.rest.takeWhile isLayout) cursor
  simp only [next, skipLayout] at this ⊢
  omega

end Cursor

/-- A source of tokens over a text. The cursor stands after the current token. -/
structure Scanner where
  cursor : Cursor
  current : Token
  ends : current.kind = .eof → cursor.rest = []

namespace Scanner

/-- The scanner whose current token is the next one at a cursor. -/
def ofCursor (cursor : Cursor) : Scanner :=
  ⟨cursor.next.2, cursor.next.1, cursor.rest_next_of_kind_eof⟩

/-- The scanner at the first token of a source. -/
def ofSource (source file : String) : Scanner :=
  ofCursor (Cursor.ofSource source file)

/-- The scanner at the token after the current one. -/
def advance (scanner : Scanner) : Scanner :=
  ofCursor scanner.cursor

/-- Whether the whole source has been read, the current token included. -/
def atEnd (scanner : Scanner) : Bool :=
  scanner.cursor.rest.isEmpty

/-- Passes over some bytes after the current token. -/
def skipBytes (bytes : Nat) (scanner : Scanner) : Scanner :=
  ⟨scanner.cursor.skipBytes bytes, scanner.current, by
    intro h
    simp [Cursor.skipBytes, scanner.ends h, Cursor.dropBytes_nil]⟩

/-- The stretch between two offsets of the source. -/
def span (scanner : Scanner) (start stop : Nat) : Span :=
  Span.ofBytes scanner.cursor.file start stop

/-- A bound on the tokens after the current one. -/
def remaining (scanner : Scanner) : Nat :=
  if scanner.current.kind = .eof then 0 else scanner.cursor.rest.length + 1

theorem remaining_of_kind_eof (scanner : Scanner) (h : scanner.current.kind = .eof) :
    scanner.remaining = 0 :=
  if_pos h

theorem remaining_of_kind_ne_eof (scanner : Scanner) (h : scanner.current.kind ≠ .eof) :
    scanner.remaining = scanner.cursor.rest.length + 1 :=
  if_neg h

theorem remaining_ofCursor_le (cursor : Cursor) :
    (ofCursor cursor).remaining ≤ cursor.rest.length := by
  by_cases h : cursor.next.1.kind = .eof
  · rw [remaining_of_kind_eof _ h]
    exact Nat.zero_le _
  · rw [remaining_of_kind_ne_eof _ h]
    exact cursor.length_rest_next_lt h

theorem remaining_advance_le (scanner : Scanner) :
    scanner.advance.remaining ≤ scanner.remaining := by
  have le := remaining_ofCursor_le scanner.cursor
  by_cases h : scanner.current.kind = .eof
  · rw [scanner.ends h] at le
    exact Nat.le_trans le (Nat.zero_le _)
  · rw [remaining_of_kind_ne_eof scanner h]
    exact Nat.le_succ_of_le le

theorem remaining_advance_lt (scanner : Scanner) (h : scanner.current.kind ≠ .eof) :
    scanner.advance.remaining < scanner.remaining := by
  rw [remaining_of_kind_ne_eof scanner h]
  exact Nat.lt_succ_of_le (remaining_ofCursor_le scanner.cursor)

instance : TokenSource Scanner where
  current := current
  advance := advance
  remaining := remaining
  remaining_advance_le := remaining_advance_le
  remaining_advance_lt := remaining_advance_lt

end Scanner

/-- All tokens of a source, the end of the input last, unless one of them is unknown. -/
def tokenize (source file : String) : Except Diagnostic (List Token) :=
  let tokens := TokenSource.tokens (Scanner.ofSource source file)
  match tokens.find? fun token => token.kind = .unknown with
  | some token => .error ⟨.unrecognisedToken token.value, token.start⟩
  | none => .ok tokens

end ExprCheck
