/-!
# Lines of a text

* `lines`: the lines of a text, each with its newline.
* `byteSize`: the length of a text in bytes.
* `columnAt?`: how many characters stand before a byte offset.
* `locate?`: the line and column of a byte offset.

The offset at the very end of a text lies on its last line, before the newline that may end it. An
offset beyond the end, or inside a character, lies nowhere.
-/

namespace ExprCheck.Text

/-- The length of a text in bytes. -/
def byteSize : List Char → Nat
  | [] => 0
  | c :: rest => c.utf8Size + byteSize rest

/-- The lines of a text. Each but the last ends with a newline, and none is empty. -/
def lines : List Char → List (List Char)
  | [] => []
  | c :: rest =>
    if c = '\n' then [c] :: lines rest
    else match lines rest with
      | [] => [[c]]
      | line :: later => (c :: line) :: later

theorem byteSize_append (first second : List Char) :
    byteSize (first ++ second) = byteSize first + byteSize second := by
  induction first with
  | nil => simp [byteSize]
  | cons c first ih => simp [byteSize, ih, Nat.add_assoc]

/-- The lines of a text make up the text. -/
theorem flatten_lines (text : List Char) : (lines text).flatten = text := by
  induction text with
  | nil => rfl
  | cons c rest ih =>
    unfold lines
    split
    · simp [ih]
    · split
      · next h =>
        rw [h, List.flatten_nil] at ih
        rw [← ih]
        rfl
      · next h =>
        rw [h, List.flatten_cons] at ih
        rw [← ih]
        rfl

/-- How many characters stand before a byte offset, unless the offset lies inside a character or
beyond the end. -/
def columnAt? : List Char → Nat → Option Nat
  | _, 0 => some 0
  | [], _ + 1 => none
  | c :: rest, offset + 1 =>
    if offset + 1 < c.utf8Size then none
    else (columnAt? rest (offset + 1 - c.utf8Size)).map (· + 1)

/-- A line of a text, counted from one, and a column in it, counted in characters from zero. -/
structure Location where
  line : Nat
  text : String
  column : Nat
deriving DecidableEq

/-- The column of the end of a line, before its newline. -/
def endColumn (line : List Char) : Nat :=
  (line.filter (· ≠ '\n')).length

/-- The location of an offset into the given lines, the first of which has the given number. -/
def locateIn? (number : Nat) : List (List Char) → Nat → Option Location
  | [], offset => if offset = 0 then some ⟨number, "", 0⟩ else none
  | [line], offset =>
    if offset < byteSize line then
      (columnAt? line offset).map fun column => ⟨number, String.ofList line, column⟩
    else if offset = byteSize line then some ⟨number, String.ofList line, endColumn line⟩
    else none
  | line :: next :: later, offset =>
    if offset < byteSize line then
      (columnAt? line offset).map fun column => ⟨number, String.ofList line, column⟩
    else locateIn? (number + 1) (next :: later) (offset - byteSize line)

/-- The line and column of a byte offset. -/
def locate? (text : String) (offset : Nat) : Option Location :=
  locateIn? 1 (lines text.toList) offset

end ExprCheck.Text
