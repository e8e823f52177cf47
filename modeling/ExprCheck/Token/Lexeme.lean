import ExprCheck.Token.Kind

/-!
# Lexemes

* `Lexeme`: a stretch of source that makes one token.
* `word?`, `number?`, `quoted?`, `symbol?`: the classes of lexemes, each taking as much from the
  beginning of a text as it can.
* `first?`: the lexeme at the beginning of a text, from the first class that has one.
* `next`: the same, with the first character as a token of its own where no class has one.

Letters and digits are those of ASCII. A quoted text runs to the next quote of its own sort and may
hold newlines; there is no way to write that quote inside it. With one character between single
quotes it is a character, and a string otherwise.
-/

namespace ExprCheck

/-- A stretch of source that makes a token: the text that it takes and the value that the token
carries. -/
structure Lexeme where
  kind : TokenKind
  text : List Char
  value : List Char
deriving DecidableEq

namespace Lexeme

/-- A lexeme whose value is its text. -/
def plain (kind : TokenKind) (text : List Char) : Lexeme :=
  ⟨kind, text, text⟩

/-! ### Words -/

/-- Whether a character can start a word. -/
def isWordStart (c : Char) : Bool :=
  c.isAlpha || c == '_'

/-- Whether a character can continue a word. -/
def isWordPart (c : Char) : Bool :=
  c.isAlphanum || c == '_'

/-- The kind of a word: reserved words have their own, and the others are identifiers. -/
def wordKind (text : List Char) : TokenKind :=
  (TokenKind.ofWord? (String.ofList text)).getD .identifier

/-- The word at the beginning of a text. -/
def word? : List Char → Option Lexeme
  | [] => none
  | c :: rest =>
    if isWordStart c then
      let text := c :: rest.takeWhile isWordPart
      some (plain (wordKind text) text)
    else none

/-! ### Numbers -/

/-- The number at the beginning of a text. With a point after its first digits it is a float; the
digits after the point may be missing. -/
def number? (text : List Char) : Option Lexeme :=
  match text.takeWhile Char.isDigit with
  | [] => none
  | digit :: digits =>
    match text.dropWhile Char.isDigit with
    | '.' :: rest =>
      some (plain .float (digit :: digits ++ '.' :: rest.takeWhile Char.isDigit))
    | _ => some (plain .integer (digit :: digits))

/-! ### Quoted text -/

/-- The mark around characters, and around strings as well. -/
def singleQuote : Char := '\x27'

/-- The mark around strings. -/
def doubleQuote : Char := '\x22'

/-- The kind of a text between two marks. -/
def quotedKind (mark : Char) (body : List Char) : TokenKind :=
  if mark = singleQuote ∧ body.length = 1 then .char else .string

/-- The text between two marks at the beginning of a text. -/
def quoted? (mark : Char) : List Char → Option Lexeme
  | [] => none
  | c :: rest =>
    if c = mark then
      let body := rest.takeWhile (· ≠ mark)
      match rest.dropWhile (· ≠ mark) with
      | [] => none
      | _ :: _ => some ⟨quotedKind mark body, mark :: body ++ [mark], body⟩
    else none

/-! ### Operators and delimiters -/

/-- The spellings of operators and delimiters. One that begins with another stands before it. -/
def symbols : List (List Char × TokenKind) :=
  [(['{'], .openCurly), (['}'], .closeCurly), (['('], .openParen), ([')'], .closeParen),
   ([','], .comma), (['=', '='], .equals), (['=', '<'], .lessEquals),
   (['=', '>'], .greaterEquals), (['='], .assignment), (['!', '='], .notEquals),
   (['<', '='], .lessEquals), (['<'], .less), (['>', '='], .greaterEquals), (['>'], .greater),
   (['+'], .plus), (['-'], .dash), (['*'], .star), (['/'], .slash), (['%'], .percent),
   (['^'], .caret)]

/-- The operator or delimiter at the beginning of a text. -/
def symbol? (text : List Char) : Option Lexeme :=
  (symbols.find? fun entry => entry.1.isPrefixOf text).map fun entry => plain entry.2 entry.1

/-! ### The next lexeme -/

/-- The classes of lexemes, in the order in which they are tried. -/
def classes : List (List Char → Option Lexeme) :=
  [word?, number?, quoted? singleQuote, quoted? doubleQuote, symbol?]

/-- The lexeme at the beginning of a text. -/
def first? (text : List Char) : Option Lexeme :=
  classes.findSome? fun lexeme? => lexeme? text

/-- A character that starts no lexeme of any class. -/
def unknown (c : Char) : Lexeme :=
  plain .unknown [c]

/-- The lexeme at the beginning of the text `c :: rest`. -/
def next (c : Char) (rest : List Char) : Lexeme :=
  (first? (c :: rest)).getD (unknown c)

/-! ### Every lexeme takes some text and ends no input -/

theorem wordKind_ne_eof (text : List Char) : wordKind text ≠ .eof := by
  unfold wordKind
  cases h : TokenKind.ofWord? (String.ofList text) with
  | none => decide
  | some kind =>
    rintro rfl
    exact Option.some_ne_none _ (TokenKind.lexeme?_of_ofWord? h).symm

theorem symbols_text_ne_nil : ∀ entry ∈ symbols, entry.1 ≠ [] := by
  decide

theorem symbols_kind_ne_eof : ∀ entry ∈ symbols, entry.2 ≠ .eof := by
  decide

/-- What holds of every lexeme: its text is not empty, and it is no end of input. -/
def Proper (lexeme : Lexeme) : Prop :=
  lexeme.text ≠ [] ∧ lexeme.kind ≠ .eof

theorem word?_proper {text : List Char} {lexeme : Lexeme} (h : word? text = some lexeme) :
    lexeme.Proper := by
  unfold word? at h
  split at h
  · simp at h
  · split at h
    · obtain rfl := Option.some.inj h
      exact ⟨by simp [plain], wordKind_ne_eof _⟩
    · simp at h

theorem number?_proper {text : List Char} {lexeme : Lexeme} (h : number? text = some lexeme) :
    lexeme.Proper := by
  unfold number? at h
  split at h
  · simp at h
  · split at h
    · obtain rfl := Option.some.inj h
      exact ⟨by simp [plain], by simp [plain]⟩
    · obtain rfl := Option.some.inj h
      exact ⟨by simp [plain], by simp [plain]⟩

theorem quoted?_proper {mark : Char} {text : List Char} {lexeme : Lexeme}
    (h : quoted? mark text = some lexeme) : lexeme.Proper := by
  unfold quoted? at h
  split at h
  · simp at h
  · split at h
    · dsimp only at h
      split at h
      · simp at h
      · obtain rfl := Option.some.inj h
        refine ⟨by simp, ?_⟩
        simp only [quotedKind]
        split <;> simp
    · simp at h

theorem symbol?_proper {text : List Char} {lexeme : Lexeme} (h : symbol? text = some lexeme) :
    lexeme.Proper := by
  obtain ⟨entry, found, rfl⟩ := Option.map_eq_some_iff.1 h
  have mem := List.mem_of_find?_eq_some found
  exact ⟨symbols_text_ne_nil entry mem, symbols_kind_ne_eof entry mem⟩

theorem first?_proper {text : List Char} {lexeme : Lexeme} (h : first? text = some lexeme) :
    lexeme.Proper := by
  obtain ⟨lexeme?, mem, h⟩ := List.exists_of_findSome?_eq_some h
  simp only [classes, List.mem_cons, List.not_mem_nil, or_false] at mem
  rcases mem with rfl | rfl | rfl | rfl | rfl
  · exact word?_proper h
  · exact number?_proper h
  · exact quoted?_proper h
  · exact quoted?_proper h
  · exact symbol?_proper h

theorem next_proper (c : Char) (rest : List Char) : (next c rest).Proper := by
  unfold next
  cases h : first? (c :: rest) with
  | none => exact ⟨by simp [unknown, plain], by simp [unknown, plain]⟩
  | some lexeme => exact first?_proper h

end Lexeme

end ExprCheck
