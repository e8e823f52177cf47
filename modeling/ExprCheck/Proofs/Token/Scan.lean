import ExprCheck.Proofs.Token.Longest
import ExprCheck.Proofs.Token.Sequence
import ExprCheck.Token.Scanner

/-!
# What a text scans to

* `Token.unplaced`: a token without its place.
* `Scans text tokens`: `text` is made of layout and of lexemes, and `tokens` are those of the
  lexemes, without their places.
* `Scans.tokens_ofCursor`: a scanner over such a text has these tokens.
* `Scans.of_tokens`: every text that a scanner finds no unknown token in is of this kind.
* `tokenize_ok`, `tokenize_error_known`: scanning all of a source at once succeeds if no token is
  unknown, and otherwise reports the first unknown token.
-/

namespace ExprCheck

/-- A place that stands for any place. -/
def Span.nowhere : Span :=
  Span.empty ⟨0, ""⟩

/-- The token without its place. -/
def Token.unplaced (token : Token) : Token :=
  ⟨token.kind, token.value, Span.nowhere⟩

/-- The token of a lexeme, without a place. -/
def Lexeme.token (lexeme : Lexeme) : Token :=
  ⟨lexeme.kind, String.ofList lexeme.value, Span.nowhere⟩

/-- A text made of layout and lexemes, and the tokens of the lexemes. -/
inductive Scans : List Char → List Token → Prop where
  | nil : Scans [] []
  | layout {c text tokens} : Cursor.isLayout c → Scans text tokens → Scans (c :: text) tokens
  | lexeme {lexeme more tokens} :
      Lexeme.first? (lexeme.text ++ more) = some lexeme → Scans more tokens →
      Scans (lexeme.text ++ more) (lexeme.token :: tokens)

/-! ### Layout -/

namespace Lexeme

theorem first?_of_isLayout {c : Char} (h : Cursor.isLayout c) (rest : List Char) :
    first? (c :: rest) = none := by
  simp only [Cursor.isLayout, Bool.or_eq_true, beq_iff_eq, or_assoc] at h
  rcases h with rfl | rfl | rfl | rfl <;> rfl

/-- Every lexeme has ended before layout. -/
theorem breaks_of_isLayout {c : Char} (h : Cursor.isLayout c) (rest : List Char) :
    Breaks (c :: rest) := by
  intro d mem
  obtain rfl := Option.some.inj mem
  simp only [Cursor.isLayout, Bool.or_eq_true, beq_iff_eq, or_assoc] at h
  rcases h with rfl | rfl | rfl | rfl <;> rfl

end Lexeme

namespace Cursor

theorem pass_nil (cursor : Cursor) : cursor.pass [] = cursor :=
  rfl

theorem pass_pass (first later : List Char) (cursor : Cursor) :
    (cursor.pass first).pass later = cursor.pass (first ++ later) := by
  simp only [pass, Text.byteSize_append, List.length_append, List.drop_drop, Nat.add_assoc]

/-- Layout at the cursor can be passed one character at a time. -/
theorem next_pass_layout {cursor : Cursor} {c : Char} {text : List Char} (h : isLayout c)
    (eq : cursor.rest = c :: text) : (cursor.pass [c]).next = cursor.next := by
  have rest : (cursor.pass [c]).rest = text := by
    show cursor.rest.drop 1 = text
    rw [eq]
    rfl
  unfold next
  congr 1
  unfold skipLayout
  rw [rest, eq, List.takeWhile_cons_of_pos h, pass_pass]
  rfl

/-- The token of a lexeme that stands at the cursor. -/
def tokenOf (cursor : Cursor) (lexeme : Lexeme) : Token :=
  ⟨lexeme.kind, String.ofList lexeme.value,
    Span.ofBytes cursor.file cursor.offset (cursor.pass lexeme.text).offset⟩

theorem unplaced_tokenOf (cursor : Cursor) (lexeme : Lexeme) :
    (cursor.tokenOf lexeme).unplaced = lexeme.token :=
  rfl

/-- A text that starts with no layout is read where the cursor stands. -/
theorem next_of_not_isLayout {cursor : Cursor} {c : Char} {rest : List Char}
    (eq : cursor.rest = c :: rest) (noLayout : ¬ isLayout c) :
    cursor.next =
      (cursor.tokenOf (Lexeme.next c rest), cursor.pass (Lexeme.next c rest).text) := by
  have stays : cursor.skipLayout = cursor := by
    rw [skipLayout, eq, List.takeWhile_cons_of_neg noLayout, pass_nil]
  unfold next read
  rw [stays, eq]
  rfl

/-- What a lexeme at the cursor reads as. -/
theorem next_of_first? {cursor : Cursor} {lexeme : Lexeme}
    (h : Lexeme.first? cursor.rest = some lexeme) :
    cursor.next = (cursor.tokenOf lexeme, cursor.pass lexeme.text) := by
  cases eq : cursor.rest with
  | nil =>
    rw [eq] at h
    cases h
  | cons c rest =>
    have noLayout : ¬ isLayout c := by
      intro layout
      rw [eq, Lexeme.first?_of_isLayout layout] at h
      cases h
    have found : Lexeme.next c rest = lexeme := by
      rw [Lexeme.next, ← eq, h]
      rfl
    rw [next_of_not_isLayout eq noLayout, found]

/-- Where nothing is left, the end of the input is read. -/
theorem next_of_nil {cursor : Cursor} (eq : cursor.rest = []) :
    cursor.next =
      (Token.endOfInput (Position.ofBytes cursor.file cursor.offset), cursor) := by
  unfold next skipLayout read
  rw [eq, List.takeWhile_nil, pass_nil, eq]

theorem next_kind_of_nil {cursor : Cursor} (eq : cursor.rest = []) :
    cursor.next.1.kind = .eof := by
  rw [next_of_nil eq]
  rfl

theorem next_kind_of_first?_eq_none {cursor : Cursor} {c : Char} {text : List Char}
    (eq : cursor.rest = c :: text) (noLayout : ¬ isLayout c)
    (h : Lexeme.first? (c :: text) = none) : cursor.next.1.kind = .unknown := by
  have found : Lexeme.next c text = Lexeme.unknown c := by
    rw [Lexeme.next, h]
    rfl
  rw [next_of_not_isLayout eq noLayout, found]
  rfl

end Cursor

/-! ### Scanners -/

namespace Scanner

/-- What is read first is the first token, and the scanner after it has the others. -/
theorem tokens_of_next {cursor after : Cursor} {token : Token} (read : cursor.next = (token, after))
    (notEnd : token.kind ≠ .eof) :
    TokenSource.tokens (ofCursor cursor) = token :: TokenSource.tokens (ofCursor after) := by
  have isFirst : TokenSource.current (ofCursor cursor) = token := congrArg Prod.fst read
  have isAfter : TokenSource.advance (ofCursor cursor) = ofCursor after :=
    congrArg ofCursor (congrArg Prod.snd read)
  rw [TokenSource.tokens_of_ne_eof (isFirst ▸ notEnd), isFirst, isAfter]

theorem tokens_of_next_eof {cursor after : Cursor} {token : Token}
    (read : cursor.next = (token, after)) (isEnd : token.kind = .eof) :
    TokenSource.tokens (ofCursor cursor) = [token] := by
  have isFirst : TokenSource.current (ofCursor cursor) = token := congrArg Prod.fst read
  rw [TokenSource.tokens_of_eof (isFirst ▸ isEnd), isFirst]

theorem tokens_of_first? {cursor : Cursor} {lexeme : Lexeme}
    (h : Lexeme.first? cursor.rest = some lexeme) :
    TokenSource.tokens (ofCursor cursor) =
      cursor.tokenOf lexeme :: TokenSource.tokens (ofCursor (cursor.pass lexeme.text)) :=
  tokens_of_next (Cursor.next_of_first? h) (Lexeme.first?_proper h).2

theorem tokens_of_not_isLayout {cursor : Cursor} {c : Char} {rest : List Char}
    (eq : cursor.rest = c :: rest) (noLayout : ¬ Cursor.isLayout c) :
    TokenSource.tokens (ofCursor cursor) =
      cursor.tokenOf (Lexeme.next c rest) ::
        TokenSource.tokens (ofCursor (cursor.pass (Lexeme.next c rest).text)) :=
  tokens_of_next (Cursor.next_of_not_isLayout eq noLayout) (Lexeme.next_proper c rest).2

theorem ofCursor_congr {cursor cursor' : Cursor} (h : cursor.next = cursor'.next) :
    ofCursor cursor = ofCursor cursor' := by
  unfold ofCursor
  congr 1 <;> rw [h]

end Scanner

namespace Scans

open TokenSource (tokens_of_eof tokens_of_ne_eof)

theorem rest_pass {cursor : Cursor} {text more : List Char} (eq : cursor.rest = text ++ more) :
    (cursor.pass text).rest = more := by
  show cursor.rest.drop text.length = more
  rw [eq, List.drop_left]

/-- A scanner over a text has the tokens that it scans to, and an end of input after them. -/
theorem tokens_ofCursor {text : List Char} {tokens : List Token} (h : Scans text tokens)
    {cursor : Cursor} (eq : cursor.rest = text) :
    ∃ placed last, TokenSource.tokens (Scanner.ofCursor cursor) = placed ++ [last] ∧
      last.kind = .eof ∧ placed.map Token.unplaced = tokens := by
  induction h generalizing cursor with
  | nil =>
    have isEnd := Cursor.next_kind_of_nil eq
    exact ⟨[], _, tokens_of_eof isEnd, isEnd, rfl⟩
  | @layout c text tokens isLayout _ ih =>
    have rest : (cursor.pass [c]).rest = text := rest_pass eq
    rw [← Scanner.ofCursor_congr (Cursor.next_pass_layout isLayout eq)]
    exact ih rest
  | @lexeme lexeme more tokens found _ ih =>
    rw [← eq] at found
    obtain ⟨placed, last, all, isEnd, rfl⟩ := ih (rest_pass eq)
    refine ⟨cursor.tokenOf lexeme :: placed, last, ?_, isEnd, rfl⟩
    rw [Scanner.tokens_of_first? found, all]
    rfl

theorem tokens_ofSource {source : String} {tokens : List Token} (h : Scans source.toList tokens)
    (file : String) :
    ∃ placed last, TokenSource.tokens (Scanner.ofSource source file) = placed ++ [last] ∧
      last.kind = .eof ∧ placed.map Token.unplaced = tokens :=
  tokens_ofCursor h rfl

/-- A text without unknown tokens is made of layout and lexemes. -/
theorem of_tokens {cursor : Cursor}
    (known : ∀ token ∈ TokenSource.tokens (Scanner.ofCursor cursor), token.kind ≠ .unknown) :
    Scans cursor.rest
      ((TokenSource.tokens (Scanner.ofCursor cursor)).dropLast.map Token.unplaced) := by
  induction eq : cursor.rest.length using Nat.strongRecOn generalizing cursor with
  | ind length ih =>
    cases restEq : cursor.rest with
    | nil =>
      rw [tokens_of_eof (Cursor.next_kind_of_nil restEq)]
      exact .nil
    | cons c text =>
      rw [restEq, List.length_cons] at eq
      by_cases isLayout : Cursor.isLayout c
      · have same := Scanner.ofCursor_congr (Cursor.next_pass_layout isLayout restEq)
        have rest : (cursor.pass [c]).rest = text := rest_pass restEq
        rw [← same] at known ⊢
        refine .layout isLayout ?_
        rw [← rest]
        exact ih text.length (by omega) known (by rw [rest])
      · cases found : Lexeme.first? (c :: text) with
        | none =>
          obtain ⟨later, first⟩ := TokenSource.tokens_eq_cons (Scanner.ofCursor cursor)
          have mem : cursor.next.1 ∈ TokenSource.tokens (Scanner.ofCursor cursor) := by
            rw [first]
            exact List.mem_cons_self
          exact absurd (Cursor.next_kind_of_first?_eq_none restEq isLayout found) (known _ mem)
        | some lexeme =>
          have proper := List.length_pos_iff.2 (Lexeme.first?_proper found).1
          obtain ⟨more, parts⟩ := Lexeme.first?_isPrefix found
          have size := congrArg List.length parts
          rw [List.length_append, List.length_cons] at size
          rw [← restEq] at found
          have split := Scanner.tokens_of_first? found
          have rest : (cursor.pass lexeme.text).rest = more := rest_pass (by rw [restEq, parts])
          obtain ⟨_, later⟩ :=
            TokenSource.tokens_eq_cons (Scanner.ofCursor (cursor.pass lexeme.text))
          rw [split] at known
          have scans := ih more.length (by omega)
            (fun token mem => known token (List.mem_cons_of_mem _ mem)) (by rw [rest])
          rw [rest] at scans
          rw [split, List.dropLast_cons_of_ne_nil (by rw [later]; exact List.cons_ne_nil _ _),
            List.map_cons, Cursor.unplaced_tokenOf, ← parts]
          refine .lexeme ?_ scans
          rw [parts, ← restEq]
          exact found

/-- Texts side by side, if the second starts where every lexeme of the first has ended. -/
theorem append {text more : List Char} {tokens tokens' : List Token} (h : Scans text tokens)
    (breaks : Lexeme.Breaks more) (h' : Scans more tokens') :
    Scans (text ++ more) (tokens ++ tokens') := by
  induction h with
  | nil => exact h'
  | layout isLayout _ ih => exact .layout isLayout ih
  | lexeme found _ ih =>
    rw [List.append_assoc, List.cons_append]
    refine .lexeme ?_ ih
    rw [← List.append_assoc]
    exact Lexeme.first?_append found breaks

end Scans

/-- Layout at the cursor can be passed before the scanner starts. -/
theorem Scanner.ofCursor_pass_layout {cursor : Cursor} {gap more : List Char}
    (isLayout : ∀ c ∈ gap, Cursor.isLayout c) (eq : cursor.rest = gap ++ more) :
    ofCursor (cursor.pass gap) = ofCursor cursor := by
  induction gap generalizing cursor with
  | nil => rfl
  | cons c gap ih =>
    obtain ⟨first, later⟩ := List.forall_mem_cons.1 isLayout
    have rest : (cursor.pass [c]).rest = gap ++ more := Scans.rest_pass eq
    rw [show c :: gap = [c] ++ gap from rfl, ← Cursor.pass_pass, ih later rest]
    exact ofCursor_congr (Cursor.next_pass_layout first eq)

/-! ### Scanning at once -/

/-- The report of a character that starts no token. -/
def Token.unrecognised (token : Token) : Diagnostic :=
  ⟨.unrecognisedToken token.value, token.start⟩

theorem tokenize_ok {source file : String} {tokens : List Token} :
    tokenize source file = .ok tokens ↔
      tokens = TokenSource.tokens (Scanner.ofSource source file) ∧
        ∀ token ∈ tokens, token.kind ≠ .unknown := by
  unfold tokenize
  dsimp only
  split
  · next token found =>
    have isUnknown : token.kind = .unknown := by simpa using List.find?_some found
    constructor
    · intro h
      cases h
    · rintro ⟨rfl, known⟩
      exact absurd isUnknown (known token (List.mem_of_find?_eq_some found))
  · next notFound =>
    have known : ∀ token ∈ TokenSource.tokens (Scanner.ofSource source file),
        token.kind ≠ .unknown := by simpa using notFound
    constructor
    · intro h
      cases h
      exact ⟨rfl, known⟩
    · rintro ⟨rfl, -⟩
      rfl

theorem tokens_of_tokenize {source file : String} {tokens : List Token}
    (h : tokenize source file = .ok tokens) :
    tokens = TokenSource.tokens (Scanner.ofSource source file) :=
  (tokenize_ok.1 h).1

/-- The tokens of a source before its first unknown one. -/
def TokenSource.known {σ : Type} [TokenSource σ] (source : σ) : List Token :=
  (TokenSource.tokens source).takeWhile fun token => token.kind ≠ .unknown

theorem TokenSource.known_eq {σ : Type} [TokenSource σ] {source : σ} {front later : List Token}
    {token : Token} (eq : TokenSource.tokens source = front ++ token :: later)
    (before : ∀ earlier ∈ front, earlier.kind ≠ .unknown) (isUnknown : token.kind = .unknown) :
    TokenSource.known source = front := by
  rw [TokenSource.known, eq, List.takeWhile_append_of_pos (by simpa using before)]
  simp [isUnknown]

/-- What is reported is the first of the unknown tokens. -/
theorem tokenize_error_known {source file : String} {diagnostic : Diagnostic}
    (h : tokenize source file = .error diagnostic) :
    ∃ token later, TokenSource.tokens (Scanner.ofSource source file) =
        TokenSource.known (Scanner.ofSource source file) ++ token :: later ∧
      token.kind = .unknown ∧ diagnostic = token.unrecognised := by
  unfold tokenize at h
  dsimp only at h
  split at h
  · next token found =>
    cases h
    obtain ⟨isUnknown, front, later, eq, before⟩ := List.find?_eq_some_iff_append.1 found
    have isUnknown : token.kind = .unknown := by simpa using isUnknown
    have known := TokenSource.known_eq eq (by simpa using before) isUnknown
    exact ⟨token, later, known ▸ eq, isUnknown, rfl⟩
  · cases h

/-- An unknown token is reported if it is the first. -/
theorem tokenize_error_of_tokens {source file : String} {front later : List Token} {token : Token}
    (eq : TokenSource.tokens (Scanner.ofSource source file) = front ++ token :: later)
    (before : ∀ earlier ∈ front, earlier.kind ≠ .unknown) (isUnknown : token.kind = .unknown) :
    tokenize source file = .error token.unrecognised := by
  have found : (TokenSource.tokens (Scanner.ofSource source file)).find?
      (fun token => token.kind = .unknown) = some token :=
    List.find?_eq_some_iff_append.2
      ⟨by simpa using isUnknown, front, later, eq, by simpa using before⟩
  unfold tokenize
  dsimp only
  rw [found]
  rfl

theorem tokenize_error {source file : String} {diagnostic : Diagnostic}
    (h : tokenize source file = .error diagnostic) :
    ∃ token ∈ TokenSource.tokens (Scanner.ofSource source file),
      token.kind = .unknown ∧ diagnostic = token.unrecognised := by
  obtain ⟨token, later, eq, reported⟩ := tokenize_error_known h
  exact ⟨token, eq ▸ List.mem_append_right _ List.mem_cons_self, reported⟩

end ExprCheck
