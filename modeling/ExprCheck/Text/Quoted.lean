import ExprCheck.Text.Printable

/-!
# Quoted text in messages

* `escape`: how one character is written between double quotes.
* `quoted`: a text between double quotes.

NUL, tab, carriage return, newline, the backslash and the double quote have short escapes. Any other
character that is not printable is written as its code point, `u` and lower-case hexadecimal digits
in curly brackets after a backslash. A single quote is written as it is.
-/

namespace ExprCheck.Text

/-- The code point of a character as an escape. -/
def codePointEscape (c : Char) : List Char :=
  "\\u\x7b".toList ++ Nat.toDigits 16 c.toNat ++ "\x7d".toList

/-- How a character is written between double quotes. -/
def escape (c : Char) : List Char :=
  match c with
  | '\x00' => ['\\', '0']
  | '\t' => ['\\', 't']
  | '\r' => ['\\', 'r']
  | '\n' => ['\\', 'n']
  | '\\' => ['\\', '\\']
  | '\x22' => ['\\', '\x22']
  | c => if isPrintable c then [c] else codePointEscape c

/-- The text between double quotes, each character escaped as it needs. -/
def quoted (text : String) : String :=
  String.ofList ('\x22' :: text.toList.flatMap escape ++ ['\x22'])

end ExprCheck.Text
