import ExprCheck.Proofs.Tree.Source

/-!
# The text of a tree scans to its tokens

No two parts of the text of a tree run together, because a part that could go on is followed by a
space or a closing bracket:

* `Scans.delimiter`: brackets and signs, which may be followed by anything.
* `Scans.spelt`: operators and the words of a conditional, which must be followed by a break.
* `Scans.ofSource`: the text of a well-formed tree, before a break.
* `Scans.source`: the same text alone.
-/

namespace ExprCheck

open Lexeme (Breaks)

theorem breaks_nil : Breaks [] := by
  intro c mem
  cases mem

theorem breaks_space (rest : List Char) : Breaks (' ' :: rest) := by
  intro c mem
  obtain rfl := Option.some.inj mem
  rfl

theorem breaks_paren (rest : List Char) : Breaks (')' :: rest) := by
  intro c mem
  obtain rfl := Option.some.inj mem
  rfl

namespace Scans

variable {more : List Char} {rest : List Token}

theorem space (h : Scans more rest) : Scans (' ' :: more) rest :=
  .layout rfl h

/-- A lexeme that carries its own text. -/
theorem plain {token : Token}
    (found : Lexeme.first? (token.value.toList ++ more) =
      some (.plain token.kind token.value.toList))
    (h : Scans more rest) : Scans (token.value.toList ++ more) (token.unplaced :: rest) := by
  have same : (Lexeme.plain token.kind token.value.toList).token = token.unplaced := by
    rw [Lexeme.token, Token.unplaced, Lexeme.plain, String.ofList_toList]
  have scans := @Scans.lexeme (.plain token.kind token.value.toList) more rest found h
  rwa [same] at scans

/-! ### Brackets and signs -/

/-- The kinds whose lexeme is one character that no other lexeme starts with. -/
def delimiters : List (TokenKind × Char) :=
  [(.openParen, '('), (.closeParen, ')'), (.openCurly, '{'), (.closeCurly, '}'), (.plus, '+'),
   (.dash, '-')]

theorem display_delimiter : ∀ entry ∈ delimiters, entry.1.display.toList = [entry.2] := by
  decide

theorem first?_delimiter {entry : TokenKind × Char} (h : entry ∈ delimiters) (more : List Char) :
    Lexeme.first? (entry.2 :: more) = some (.plain entry.1 [entry.2]) := by
  simp only [delimiters, List.mem_cons, List.not_mem_nil, or_false] at h
  rcases h with rfl | rfl | rfl | rfl | rfl | rfl <;> rfl

theorem delimiter {kind : TokenKind} {c : Char} (mem : (kind, c) ∈ delimiters)
    (h : Scans more rest) : Scans (c :: more) (kind.token :: rest) := by
  have text : kind.token.value.toList = [c] := display_delimiter _ mem
  have found := first?_delimiter mem more
  have scans := @plain more rest kind.token (by rw [text]; exact found) h
  rwa [text] at scans

/-! ### Operators and words -/

theorem first?_of_mem_symbols :
    ∀ entry ∈ Lexeme.symbols, Lexeme.first? entry.1 = some (.plain entry.2 entry.1) := by
  decide

theorem first?_of_mem_reservedWords :
    ∀ entry ∈ TokenKind.reservedWords,
      Lexeme.first? entry.1.toList = some (.plain entry.2 entry.1.toList) := by
  decide

theorem first?_of_isSpelt {token : Token} (h : token.IsSpelt) :
    Lexeme.first? token.value.toList = some (.plain token.kind token.value.toList) := by
  rcases h with mem | mem
  · exact first?_of_mem_symbols _ mem
  · exact first?_of_mem_reservedWords _ mem

/-- A token that is spelt as its kind can be, before a break. -/
theorem spelt {token : Token} (isSpelt : token.IsSpelt) (breaks : Breaks more)
    (h : Scans more rest) : Scans (token.value.toList ++ more) (token.unplaced :: rest) :=
  plain (Lexeme.first?_append (first?_of_isSpelt isSpelt) breaks) h

theorem keyword {kind : TokenKind} (mem : kind = .ifWord ∨ kind = .elsifWord ∨ kind = .elseWord)
    (breaks : Breaks more) (h : Scans more rest) :
    Scans (kind.display.toList ++ more) (kind.token :: rest) := by
  have isSpelt : kind.token.IsSpelt := by
    rcases mem with rfl | rfl | rfl <;> exact .inr (by decide)
  exact spelt isSpelt breaks h

theorem sign_of_mem_symbols :
    ∀ entry ∈ Lexeme.symbols, entry.2 = .plus ∨ entry.2 = .dash →
      entry ∈ delimiters.map fun delimiter => ([delimiter.2], delimiter.1) := by
  decide

theorem not_sign_of_mem_reservedWords :
    ∀ entry ∈ TokenKind.reservedWords, ¬ (entry.2 = .plus ∨ entry.2 = .dash) := by
  decide

/-- A sign is spelt as the one text of its kind, which may be followed by anything. -/
theorem sign {token : Token} (isSign : token.kind = .plus ∨ token.kind = .dash)
    (isSpelt : token.IsSpelt) (h : Scans more rest) :
    Scans (token.value.toList ++ more) (token.unplaced :: rest) := by
  obtain ⟨c, mem, text⟩ : ∃ c, (token.kind, c) ∈ delimiters ∧ token.value.toList = [c] := by
    rcases isSpelt with spelt | spelt
    · obtain ⟨entry, mem, eq⟩ := List.mem_map.1 (sign_of_mem_symbols _ spelt isSign)
      obtain ⟨text, kind⟩ := Prod.mk.inj eq.symm
      exact ⟨entry.2, by rwa [kind], text⟩
    · exact absurd isSign (not_sign_of_mem_reservedWords _ spelt)
  have found := first?_delimiter mem more
  refine plain ?_ h
  rw [text]
  exact found

/-! ### Literals -/

theorem of_tokenize {text file : String} {tokens : List Token}
    (h : tokenize text file = .ok tokens) :
    Scans text.toList (tokens.dropLast.map Token.unplaced) := by
  obtain ⟨rfl, known⟩ := tokenize_ok.1 h
  exact @of_tokens (Cursor.ofSource text file) known

/-- A literal that is read as itself alone, before a break. -/
theorem literal {token : Token} (scansAlone : token.ScansAlone) (breaks : Breaks more)
    (h : Scans more rest) : Scans (token.display.toList ++ more) (token.unplaced :: rest) := by
  obtain ⟨file, scanned, last, ok, same⟩ := scansAlone
  have alone := of_tokenize ok
  rw [show [scanned, last].dropLast.map Token.unplaced = [scanned.unplaced] from rfl, same] at alone
  exact alone.append breaks h

/-! ### Trees -/

open ExprCheck.Expr (sourceAs sourceAll tokensAs tokensAll)

/-- What is to be shown of a tree: its text, before a break, scans to its tokens. -/
def OfSource (expr : Expr) : Prop :=
  ∀ {word : TokenKind} {more : List Char} {rest : List Token},
    word = .ifWord ∨ word = .elsifWord → Breaks more → Scans more rest →
    Scans ((sourceAs word expr).toList ++ more) (tokensAs word expr ++ rest)

theorem ofSourceAll {items : List Expr} (each : ∀ item ∈ items, OfSource item)
    (breaks : Breaks more) (h : Scans more rest) :
    Scans ((sourceAll items).toList ++ more) (tokensAll items ++ rest) ∧
      Breaks ((sourceAll items).toList ++ more) := by
  induction items with
  | nil => exact ⟨h, breaks⟩
  | cons item items ih =>
    obtain ⟨scans, breaks'⟩ := ih fun other mem => each other (List.mem_cons_of_mem _ mem)
    have first : Scans
        (' ' :: ((sourceAs .ifWord item).toList ++ ((sourceAll items).toList ++ more)))
        (tokensAs .ifWord item ++ (tokensAll items ++ rest)) :=
      .space (each item List.mem_cons_self (.inl rfl) breaks' scans)
    rw [sourceAll, tokensAll]
    simp only [String.toList_append, List.append_assoc]
    exact ⟨first, breaks_space _⟩

/-- A word, a condition and a body, before something that starts with a break. -/
theorem branch {word : TokenKind} {condition body : Expr}
    (isWord : word = .ifWord ∨ word = .elsifWord) (isCondition : OfSource condition)
    (isBody : OfSource body) (breaks : Breaks more) (h : Scans more rest) :
    Scans (word.display.toList ++ ' ' :: ((sourceAs .ifWord condition).toList ++
        ' ' :: ((sourceAs .ifWord body).toList ++ more)))
      (word.token :: (tokensAs .ifWord condition ++ (tokensAs .ifWord body ++ rest))) := by
  have isKeyword : word = .ifWord ∨ word = .elsifWord ∨ word = .elseWord := by
    rcases isWord with rfl | rfl
    · exact .inl rfl
    · exact .inr (.inl rfl)
  refine keyword isKeyword (breaks_space _) (.space ?_)
  exact isCondition (.inl rfl) (breaks_space _) (.space (isBody (.inl rfl) breaks h))

/-- The text of a well-formed tree scans to its tokens, before a break. -/
theorem ofSource {expr : Expr} (h : expr.WellFormed) : OfSource expr := by
  induction h with
  | literal _ scansAlone =>
    intro word more rest _ breaks scans
    exact literal scansAlone breaks scans
  | @unary operator operand _ isSign isSpelt _ ih =>
    intro word more rest _ breaks scans
    have closing : Scans (')' :: more) (TokenKind.closeParen.token :: rest) :=
      delimiter (by decide) scans
    have inner := sign isSign isSpelt (ih (.inl rfl) (breaks_paren more) closing)
    have whole : Scans ('(' :: _) (TokenKind.openParen.token :: _) := delimiter (by decide) inner
    rw [sourceAs, tokensAs]
    simp only [String.toList_append, List.append_assoc, List.cons_append, List.nil_append]
    exact whole
  | @binary left operator right _ _ isSpelt _ _ ihLeft ihRight =>
    intro word more rest _ breaks scans
    have closing : Scans (')' :: more) (TokenKind.closeParen.token :: rest) :=
      delimiter (by decide) scans
    have second := Scans.space (ihRight (.inl rfl) (breaks_paren more) closing)
    have operation := Scans.space (spelt isSpelt (breaks_space _) second)
    have first := ihLeft (.inl rfl) (breaks_space _) operation
    have whole : Scans ('(' :: _) (TokenKind.openParen.token :: _) := delimiter (by decide) first
    rw [sourceAs, tokensAs]
    simp only [String.toList_append, List.append_assoc, List.cons_append, List.nil_append]
    exact whole
  | ifThen _ _ _ ihCondition ihBody =>
    intro word more rest isWord breaks scans
    have whole := branch isWord ihCondition ihBody breaks scans
    rw [sourceAs, tokensAs]
    simp only [String.toList_append, List.append_assoc, List.cons_append]
    exact whole
  | @ifElse condition body otherwise _ _ _ _ _ _ ihCondition ihBody ihOtherwise =>
    intro word more rest isWord breaks scans
    rw [sourceAs, tokensAs]
    by_cases isConditional : otherwise.isConditional
    · have other := Scans.space (ihOtherwise (.inr rfl) breaks scans)
      have whole := branch isWord ihCondition ihBody (breaks_space _) other
      rw [if_pos isConditional, if_pos isConditional]
      simp only [String.toList_append, List.append_assoc, List.cons_append]
      exact whole
    · have other := Scans.space (ihOtherwise (.inl rfl) breaks scans)
      have introduced := Scans.space (keyword (.inr (.inr rfl)) (breaks_space _) other)
      have whole := branch isWord ihCondition ihBody (breaks_space _) introduced
      rw [if_neg isConditional, if_neg isConditional]
      simp only [String.toList_append, List.append_assoc, List.cons_append]
      exact whole
  | @block items _ _ ih =>
    intro word more rest _ breaks scans
    have closing : Scans ('}' :: more) (TokenKind.closeCurly.token :: rest) :=
      delimiter (by decide) scans
    cases items with
    | nil =>
      have whole : Scans ('{' :: _) (TokenKind.openCurly.token :: _) :=
        delimiter (by decide) closing
      rw [sourceAs, tokensAs, tokensAll]
      exact whole
    | cons item items =>
      obtain ⟨inner, -⟩ := ofSourceAll ih (breaks_space _) (.space closing)
      have whole : Scans ('{' :: _) (TokenKind.openCurly.token :: _) := delimiter (by decide) inner
      rw [sourceAs, tokensAs]
      simp only [String.toList_append, List.append_assoc, List.cons_append, List.nil_append]
      exact whole

theorem source {expr : Expr} (h : expr.WellFormed) :
    Scans expr.source.toList (tokensAs .ifWord expr) := by
  have scans := ofSource h (.inl rfl) breaks_nil .nil
  rwa [List.append_nil, List.append_nil] at scans

end Scans

end ExprCheck
