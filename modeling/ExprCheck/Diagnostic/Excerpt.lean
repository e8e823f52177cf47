import ExprCheck.Diagnostic.Basic
import ExprCheck.Text.Align
import ExprCheck.Text.Blank
import ExprCheck.Text.Lines

/-!
# Diagnostics shown beside their line of source

* `Diagnostic.render`: the headline, the file, and the line with an arrow below the position:

```text
Error: OperandTypeMismatch (Operator `+` does not support operands `Int` and `Bool`)
-> sum.expr
  |
1 | 1 + true
  | --^
```

The line is shown without its indentation, which is made of spaces and tabs, and without the white
space at its end. If the position lies nowhere in the text, the line is left out.
-/

namespace ExprCheck

namespace Diagnostic

/-- The name of the fault, and the tip in brackets where there is one. -/
def headline (diagnostic : Diagnostic) : String :=
  match diagnostic.fault.tip? with
  | none => "Error: " ++ diagnostic.fault.name
  | some tip => "Error: " ++ diagnostic.fault.name ++ " (" ++ tip ++ ")"

/-- Whether a character indents the line that it starts. -/
def isIndent (c : Char) : Bool :=
  c == ' ' || c == '\t'

/-- How many characters indent a line. -/
def indentation (line : List Char) : Nat :=
  (line.takeWhile isIndent).length

/-- The part of a line that is shown. -/
def shownLine (line : List Char) : List Char :=
  Text.trimEnd (line.dropWhile isIndent)

/-- The arrow that points at a column of the shown line. -/
def arrow (column : Nat) : String :=
  String.ofList (List.replicate column '-' ++ ['^'])

/-- The line of the position, and below it the arrow. -/
def excerpt (location : Text.Location) : String :=
  let line := location.text.toList
  let number := toString location.line
  let margin := Text.alignRight (number.length + 2) "|"
  margin ++ "\n"
    ++ number ++ " | " ++ String.ofList (shownLine line) ++ "\n"
    ++ margin ++ " " ++ arrow (location.column - indentation line) ++ "\n"

/-- The diagnostic as it is shown to the user, for a text that is known by the name `path`. -/
def render (diagnostic : Diagnostic) (source path : String) : String :=
  diagnostic.headline ++ "\n-> " ++ path ++ "\n"
    ++ match Text.locate? source diagnostic.position.offset.toNat with
      | none => ""
      | some location => excerpt location

end Diagnostic

end ExprCheck
