import ExprCheck.Proofs.RoundTrip.Text
import ExprCheck.Proofs.Token.Tiling

/-!
# Tokens shown in a row scan to themselves

* `Token.shown`: some tokens as they are displayed, but for the end of the input, with a space
  between each two.
* `Lexeme.OfLanguage.exists_shown`: a token is displayed as a lexeme of the language with its kind
  and its value. A string stands in double quotes there, whatever marks it was read between, so it
  must not hold a double quote itself.
* `Scans.shown`: some tokens in a row scan to these tokens, as a space ends every lexeme.
* `tokenize_shown`: the tokens of a source, shown in a row, scan to the same kinds and values.
-/

namespace ExprCheck

/-- The tokens in a row, without the end of the input. -/
def Token.shown (tokens : List Token) : String :=
  " ".intercalate ((tokens.filter fun token => token.kind ≠ .eof).map Token.display)

/-- What is shown in a row depends on no place. -/
theorem Token.shown_unplaced (tokens : List Token) :
    Token.shown (tokens.map Token.unplaced) = Token.shown tokens := by
  unfold Token.shown
  rw [List.filter_map, List.map_map]
  rfl

theorem Token.shown_append_end {front : List Token}
    (before : ∀ token ∈ front, token.kind ≠ .eof) (position : Position) :
    Token.shown (front ++ [Token.endOfInput position]) =
      " ".intercalate (front.map Token.display) := by
  have all : front.filter (fun token => token.kind ≠ .eof) = front :=
    List.filter_eq_self.2 (by simpa using before)
  rw [Token.shown, List.filter_append, all]
  simp

/-! ### What a token is displayed as -/

/-- A token that carries its own text is displayed as it. -/
theorem Token.display_of_isPlain {token : Token} (h : token.kind.IsPlain) :
    token.display = token.value := by
  obtain ⟨notString, notChar, -⟩ := h
  unfold Token.display
  split
  · next isString => exact absurd isString notString
  · next isChar => exact absurd isChar notChar
  · rfl

theorem Lexeme.display_plain {kind : TokenKind} (h : kind.IsPlain) (text : List Char) :
    (plain kind text).token.display.toList = text := by
  have display := @Token.display_of_isPlain (plain kind text).token h
  rw [display]
  exact String.toList_ofList

/-- The lexeme that a token is displayed as has its kind and its value. -/
theorem Lexeme.OfLanguage.exists_shown {lexeme : Lexeme} (h : lexeme.OfLanguage)
    (noMark : lexeme.kind = .string → doubleQuote ∉ lexeme.value) :
    ∃ shown : Lexeme, shown.OfLanguage ∧ shown.text = lexeme.token.display.toList ∧
      shown.token = lexeme.token := by
  cases h with
  | word starts parts isOfWord =>
    refine ⟨_, .word starts parts isOfWord, (display_plain ?_ _).symm, rfl⟩
    rw [isOfWord_iff.1 isOfWord]
    exact isPlain_wordKind _
  | integer notNil areDigits =>
    exact ⟨_, .integer notNil areDigits, (display_plain (by decide) _).symm, rfl⟩
  | float notNil areDigits areDecimals =>
    exact ⟨_, .float notNil areDigits areDecimals, (display_plain (by decide) _).symm, rfl⟩
  | char notMark =>
    refine ⟨_, .char notMark, ?_, rfl⟩
    simp [Lexeme.token, Token.display, singleQuote]
  | @string mark body _ _ _ =>
    -- Between double quotes, a text of one character is still a string.
    refine ⟨_, .string (.inr rfl) (noMark rfl) (fun isChar => absurd isChar.1 (by decide)), ?_, rfl⟩
    simp [Lexeme.token, Token.display, doubleQuote]
  | symbol mem =>
    exact ⟨_, .symbol mem, (display_plain (isPlain_of_mem_symbols _ mem) _).symm, rfl⟩

/-! ### Tokens in a row -/

namespace Scans

/-- Every token of a text comes from a lexeme of the language. -/
theorem exists_ofLanguage {text : List Char} {tokens : List Token} (h : Scans text tokens) :
    ∀ token ∈ tokens, ∃ lexeme : Lexeme, lexeme.OfLanguage ∧ token = lexeme.token := by
  induction h with
  | nil => exact fun _ mem => absurd mem List.not_mem_nil
  | layout _ _ ih => exact ih
  | lexeme found _ ih =>
    exact List.forall_mem_cons.2 ⟨⟨_, Lexeme.first?_ofLanguage found, rfl⟩, ih⟩

/-- The text of a lexeme scans to its token. -/
theorem of_ofLanguage {lexeme : Lexeme} (h : lexeme.OfLanguage) :
    Scans lexeme.text [lexeme.token] := by
  have found := h.first?_text
  have alone := @Scans.lexeme lexeme [] [] (by rwa [List.append_nil]) .nil
  rwa [List.append_nil] at alone

/-- A token that a text scans to is displayed as a text that scans to it alone. -/
theorem display {text : List Char} {tokens : List Token} (h : Scans text tokens)
    (noMark : ∀ token ∈ tokens, token.kind = .string → Lexeme.doubleQuote ∉ token.value.toList) :
    ∀ token ∈ tokens, Scans token.display.toList [token] := by
  intro token mem
  obtain ⟨lexeme, ofLanguage, rfl⟩ := h.exists_ofLanguage token mem
  have noMark' : lexeme.kind = .string → Lexeme.doubleQuote ∉ lexeme.value := by
    intro isString
    have free := noMark _ mem isString
    rwa [Lexeme.token, String.toList_ofList] at free
  obtain ⟨shown, ofLanguage', text, same⟩ := ofLanguage.exists_shown noMark'
  rw [← text, ← same]
  exact of_ofLanguage ofLanguage'

/-- Tokens that scan alone as they are displayed scan in a row. -/
theorem intercalate {tokens : List Token}
    (each : ∀ token ∈ tokens, Scans token.display.toList [token]) :
    Scans (" ".intercalate (tokens.map Token.display)).toList tokens := by
  induction tokens with
  | nil => exact .nil
  | cons token tokens ih =>
    obtain ⟨alone, later⟩ := List.forall_mem_cons.1 each
    cases tokens with
    | nil => simpa using alone
    | cons next tokens =>
      have scans := alone.append (breaks_space _) (.space (ih later))
      simpa using scans

end Scans

/-- The tokens of a text that scans to known tokens alone. -/
theorem Scans.exists_tokenize {source : String} {tokens : List Token}
    (h : Scans source.toList tokens) (known : ∀ token ∈ tokens, token.kind ≠ .unknown)
    (file : String) :
    ∃ front position, tokenize source file = .ok (front ++ [Token.endOfInput position]) ∧
      front.map Token.unplaced = tokens := by
  obtain ⟨front, last, eq, isEnd, same⟩ := h.tokens_ofSource file
  obtain ⟨front', position, eq', -⟩ := (Scanner.tiles_ofSource source file).exists_last
  obtain ⟨rfl, atEnd⟩ := List.append_inj' (eq.symm.trans eq') rfl
  refine ⟨front, position, tokenize_ok.2 ⟨eq'.symm, fun token mem => ?_⟩, same⟩
  rcases List.mem_append.1 mem with mem | mem
  · exact known token.unplaced (same ▸ List.mem_map_of_mem mem)
  · obtain rfl := List.mem_singleton.1 mem
    exact TokenKind.noConfusion

/-- **Displaying tokens undoes scanning.** If a source scans to tokens of which no string holds a
double quote, then these tokens in a row scan to tokens of the same kinds and values, the end of the
input included, and so these are shown in a row as the first ones are. -/
theorem tokenize_shown {source file : String} {tokens : List Token}
    (scanned : tokenize source file = .ok tokens)
    (noMark : ∀ token ∈ tokens, token.kind = .string → Lexeme.doubleQuote ∉ token.value.toList)
    (file' : String) :
    ∃ tokens', tokenize (Token.shown tokens) file' = .ok tokens' ∧
      tokens'.map Token.unplaced = tokens.map Token.unplaced ∧
      Token.shown tokens' = Token.shown tokens := by
  have scans := Scans.of_tokenize scanned
  obtain ⟨rfl, known⟩ := tokenize_ok.1 scanned
  obtain ⟨front, position, eq, before⟩ := (Scanner.tiles_ofSource source file).exists_last
  rw [eq] at known noMark scans ⊢
  rw [List.dropLast_concat] at scans
  -- Without their places, the tokens have the same kinds and values.
  have known' : ∀ token ∈ front.map Token.unplaced, token.kind ≠ .unknown :=
    List.forall_mem_map.2 fun token mem => known token (List.mem_append_left _ mem)
  have noMark' : ∀ token ∈ front.map Token.unplaced,
      token.kind = .string → Lexeme.doubleQuote ∉ token.value.toList :=
    List.forall_mem_map.2 fun token mem => noMark token (List.mem_append_left _ mem)
  have row := Scans.intercalate (scans.display noMark')
  have text : " ".intercalate ((front.map Token.unplaced).map Token.display) =
      Token.shown (front ++ [Token.endOfInput position]) := by
    rw [Token.shown_append_end before, List.map_map]
    rfl
  rw [text] at row
  obtain ⟨front', position', scanned', same⟩ := row.exists_tokenize known' file'
  have unplaced : (front' ++ [Token.endOfInput position']).map Token.unplaced =
      (front ++ [Token.endOfInput position]).map Token.unplaced := by
    rw [List.map_append, List.map_append, same]
    rfl
  refine ⟨_, scanned', unplaced, ?_⟩
  rw [← Token.shown_unplaced, unplaced, Token.shown_unplaced]

/-- A string of one character in double quotes, a string in single quotes, a character that is a
double quote, a float that ends with its point and the other spelling of a comparison. -/
theorem tokenize_shown_quotes :
    (∃ tokens, tokenize "\"a\"'b c''\"'2.=<x" "shell" = .ok tokens ∧
        ∀ token ∈ tokens, token.kind = .string → Lexeme.doubleQuote ∉ token.value.toList) ∧
      ∃ tokens', tokenize "\"a\" \"b c\" '\"' 2. =< x" "again" = .ok tokens' ∧
        tokens'.map Token.kind =
          [.string, .string, .char, .float, .lessEquals, .identifier, .eof] := by
  have scanned : ∃ tokens, tokenize "\"a\"'b c''\"'2.=<x" "shell" = .ok tokens ∧
      (∀ token ∈ tokens, token.kind = .string → Lexeme.doubleQuote ∉ token.value.toList) ∧
      Token.shown tokens = "\"a\" \"b c\" '\"' 2. =< x" ∧
      tokens.map Token.kind =
        [.string, .string, .char, .float, .lessEquals, .identifier, .eof] := by
    refine ⟨_, rfl, ?_, ?_, ?_⟩ <;> decide
  obtain ⟨tokens, ok, noMark, text, kinds⟩ := scanned
  obtain ⟨tokens', ok', unplaced, -⟩ := tokenize_shown ok noMark "again"
  have kinds' := congrArg (List.map Token.kind) unplaced
  rw [List.map_map, List.map_map] at kinds'
  exact ⟨⟨tokens, ok, noMark⟩, tokens', text ▸ ok', kinds'.trans kinds⟩

end ExprCheck
