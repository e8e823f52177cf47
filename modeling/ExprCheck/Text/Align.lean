/-!
# Text in columns

* `alignRight` and `alignLeft`: a text filled up with spaces to a width, counted in characters. A
  text that is wider already stays as it is.
-/

namespace ExprCheck.Text

/-- As many spaces as `text` lacks to be `width` characters wide. -/
def gap (width : Nat) (text : String) : String :=
  String.ofList (List.replicate (width - text.length) ' ')

/-- The text at the right end of a column. -/
def alignRight (width : Nat) (text : String) : String :=
  gap width text ++ text

/-- The text at the left end of a column. -/
def alignLeft (width : Nat) (text : String) : String :=
  text ++ gap width text

theorem length_gap (width : Nat) (text : String) :
    (gap width text).length = width - text.length := by
  rw [gap, String.length_ofList, List.length_replicate]

/-- A column is as wide as it is asked to be, unless the text in it is wider. -/
theorem length_alignRight (width : Nat) (text : String) :
    (alignRight width text).length = max width text.length := by
  rw [alignRight, String.length_append, length_gap]
  omega

theorem length_alignLeft (width : Nat) (text : String) :
    (alignLeft width text).length = max width text.length := by
  rw [alignLeft, String.length_append, length_gap]
  omega

end ExprCheck.Text
