import ExprCheck.Position
import ExprCheck.Token.Kind

/-!
# Tokens

* `Token`: a kind, the value the token carries and its place in the source.
* `Token.display`: the value, put back between quotes for strings and characters.
* `Token.endOfInput`: the token that stands after the last one of a source.

The value of a quoted token is the text between its quotes; every other token carries its own text.
-/

namespace ExprCheck

/-- A unit of source text: its kind, the value it carries and its place. -/
structure Token where
  kind : TokenKind
  value : String
  span : Span
deriving DecidableEq

namespace Token

/-- Where the token starts. -/
def start (token : Token) : Position :=
  token.span.start

/-- Strings are shown in double quotes and characters in single ones; any other token shows its
value. -/
def display (token : Token) : String :=
  match token.kind with
  | .string => "\"" ++ token.value ++ "\""
  | .char => "\x27" ++ token.value ++ "\x27"
  | _ => token.value

/-- The end of the input, an empty token at a position. -/
def endOfInput (position : Position) : Token :=
  ⟨.eof, "EOF", Span.empty position⟩

@[simp] theorem endOfInput_kind (position : Position) : (endOfInput position).kind = .eof :=
  rfl

end Token

end ExprCheck
