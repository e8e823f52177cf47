/-!
# Kinds of tokens

* `TokenKind`: what a token is, whatever its text.
* `TokenKind.name`: the name by which messages and logs call a kind.
* `TokenKind.lexeme?`: the one spelling of a kind, for those whose text never varies.
* `TokenKind.display`: the lexeme where there is one, the name otherwise.
* `TokenKind.ofWord?`: the reserved words.

The comparisons `<=` and `>=` have a second spelling in sources, `=<` and `=>`; `lexeme?` gives the
first.
-/

namespace ExprCheck

/-- What a token is, whatever its text. -/
inductive TokenKind where
  | eof
  | unknown
  | identifier
  | integer
  | float
  | string
  | char
  | trueWord
  | falseWord
  | plus
  | dash
  | star
  | slash
  | percent
  | caret
  | equals
  | notEquals
  | less
  | lessEquals
  | greater
  | greaterEquals
  | andWord
  | orWord
  | assignment
  | openParen
  | closeParen
  | openCurly
  | closeCurly
  | comma
  | ifWord
  | elsifWord
  | elseWord
deriving DecidableEq

namespace TokenKind

/-- Every kind, in the order of the declaration. -/
def all : List TokenKind :=
  [eof, unknown, identifier, integer, float, string, char, trueWord, falseWord, plus, dash, star,
   slash, percent, caret, equals, notEquals, less, lessEquals, greater, greaterEquals, andWord,
   orWord, assignment, openParen, closeParen, openCurly, closeCurly, comma, ifWord, elsifWord,
   elseWord]

theorem mem_all (kind : TokenKind) : kind ∈ all := by
  cases kind <;> decide

/-- The name by which messages and logs call a kind. -/
def name : TokenKind → String
  | eof => "EOF"
  | unknown => "Unknown"
  | identifier => "Identifier"
  | integer => "Integer"
  | float => "Float"
  | string => "String"
  | char => "Char"
  | trueWord => "True"
  | falseWord => "False"
  | plus => "Plus"
  | dash => "Dash"
  | star => "Star"
  | slash => "Slash"
  | percent => "Percent"
  | caret => "Caret"
  | equals => "Equals"
  | notEquals => "NotEquals"
  | less => "Less"
  | lessEquals => "LessEquals"
  | greater => "Greater"
  | greaterEquals => "GreaterEquals"
  | andWord => "And"
  | orWord => "Or"
  | assignment => "Assignment"
  | openParen => "OpenParen"
  | closeParen => "CloseParen"
  | openCurly => "OpenCurly"
  | closeCurly => "CloseCurly"
  | comma => "Comma"
  | ifWord => "If"
  | elsifWord => "Elsif"
  | elseWord => "Else"

/-- The one spelling of a kind, for the kinds that have one. -/
def lexeme? : TokenKind → Option String
  | trueWord => some "true"
  | falseWord => some "false"
  | plus => some "+"
  | dash => some "-"
  | star => some "*"
  | slash => some "/"
  | percent => some "%"
  | caret => some "^"
  | equals => some "=="
  | notEquals => some "!="
  | less => some "<"
  | lessEquals => some "<="
  | greater => some ">"
  | greaterEquals => some ">="
  | andWord => some "and"
  | orWord => some "or"
  | assignment => some "="
  | openParen => some "("
  | closeParen => some ")"
  | openCurly => some "\x7b"
  | closeCurly => some "\x7d"
  | comma => some ","
  | ifWord => some "if"
  | elsifWord => some "elsif"
  | elseWord => some "else"
  | eof | unknown | identifier | integer | float | string | char => none

/-- How a kind is shown: by its lexeme, or by its name if its text varies. -/
def display (kind : TokenKind) : String :=
  kind.lexeme?.getD kind.name

/-- Whether a token of this kind is a leaf of an expression. -/
def isLiteral : TokenKind → Bool
  | identifier | integer | float | string | char | trueWord | falseWord => true
  | _ => false

/-- The words that are no identifiers. -/
def reservedWords : List (String × TokenKind) :=
  [("and", andWord), ("or", orWord), ("if", ifWord), ("elsif", elsifWord), ("else", elseWord),
   ("true", trueWord), ("false", falseWord)]

/-- The kind of a reserved word. -/
def ofWord? (word : String) : Option TokenKind :=
  (reservedWords.find? fun entry => entry.1 == word).map fun entry => entry.2

theorem lexeme?_of_mem_reservedWords :
    ∀ entry ∈ reservedWords, entry.2.lexeme? = some entry.1 := by
  decide

/-- A reserved word is spelt as the lexeme of its kind. -/
theorem lexeme?_of_ofWord? {word : String} {kind : TokenKind} (h : ofWord? word = some kind) :
    kind.lexeme? = some word := by
  obtain ⟨entry, found, rfl⟩ := Option.map_eq_some_iff.1 h
  have same : entry.1 = word := by simpa using List.find?_some found
  rw [← same]
  exact lexeme?_of_mem_reservedWords entry (List.mem_of_find?_eq_some found)

end TokenKind

end ExprCheck
