import ExprCheck.Proofs.Text.Lines
import ExprCheck.Proofs.Token.Lexeme
import ExprCheck.Proofs.Token.Scan
import ExprCheck.Proofs.Token.Sequence
import Mathlib.Data.List.Forall2
import Mathlib.Logic.Function.Iterate

/-!
# The tokens of a source tile it

Scanning loses nothing: the tokens of a source stand side by side in it, with nothing but layout
before, between and behind them.

* `Text.IsSlice`: what stands between two byte offsets of a text, both of them between characters.
* `TokenKind.Spells`: how a kind of token writes its value. Strings and characters stand between two
  equal marks, an unknown token is one character, and every other token is its value.
* `Tiles file offset text tokens`: a text that starts at an offset is cut into layout and the texts
  of its tokens, each of which knows where it stands.
* `Scanner.tiles_ofCursor`: the tokens of a scanner tile the text at its cursor.
* `Scanner.advance_ofCursor_of_eof`: a scanner at the end of its input stays as it is.
* `scanner_lossless`: both of them, said of the offsets that the tokens carry.

Offsets are words of 32 bits, so the last statement asks for a source that they can measure.
-/

namespace ExprCheck

/-! ### Slices of a text -/

namespace Text

/-- The part of a text between two byte offsets. -/
def IsSlice (text : List Char) (start stop : Nat) (part : List Char) : Prop :=
  ∃ before after, text = before ++ (part ++ after) ∧ byteSize before = start ∧
    start + byteSize part = stop

end Text

open Text (byteSize byteSize_append IsSlice)

/-! ### Lexemes and their values -/

/-- How a token of this kind with the given value stands in a source. -/
def TokenKind.Spells (kind : TokenKind) (text value : List Char) : Prop :=
  match kind with
  | .string | .char =>
    ∃ mark, (mark = Lexeme.singleQuote ∨ mark = Lexeme.doubleQuote) ∧
      text = mark :: (value ++ [mark])
  | .unknown => text = value ∧ text.length = 1
  | _ => text = value

/-- The kinds of tokens that stand in a source as their value, whatever its length. -/
def TokenKind.IsPlain (kind : TokenKind) : Prop :=
  kind ≠ .string ∧ kind ≠ .char ∧ kind ≠ .unknown

instance (kind : TokenKind) : Decidable kind.IsPlain :=
  inferInstanceAs (Decidable (_ ∧ _ ∧ _))

theorem TokenKind.IsPlain.spells {kind : TokenKind} (h : kind.IsPlain) (text : List Char) :
    kind.Spells text text := by
  obtain ⟨notString, notChar, notUnknown⟩ := h
  cases kind <;> first | rfl | contradiction

namespace Lexeme

theorem isPlain_wordKind (text : List Char) : (wordKind text).IsPlain := by
  unfold wordKind
  cases h : TokenKind.ofWord? (String.ofList text) with
  | none => decide
  | some kind =>
    -- The kinds that are not plain have no spelling of their own.
    have spelt := TokenKind.lexeme?_of_ofWord? h
    refine ⟨?_, ?_, ?_⟩ <;>
    · rintro rfl
      cases spelt

theorem isPlain_of_mem_symbols : ∀ entry ∈ symbols, entry.2.IsPlain := by
  decide

theorem word?_spells {text : List Char} {lexeme : Lexeme} (h : word? text = some lexeme) :
    lexeme.kind.Spells lexeme.text lexeme.value := by
  unfold word? at h
  split at h
  · cases h
  · split at h
    · obtain rfl := Option.some.inj h
      exact (isPlain_wordKind _).spells _
    · cases h

theorem number?_spells {text : List Char} {lexeme : Lexeme} (h : number? text = some lexeme) :
    lexeme.kind.Spells lexeme.text lexeme.value := by
  unfold number? at h
  split at h
  · cases h
  · split at h
    · obtain rfl := Option.some.inj h
      rfl
    · obtain rfl := Option.some.inj h
      rfl

theorem spells_of_quotedKind {mark : Char} (isMark : mark = singleQuote ∨ mark = doubleQuote)
    (body : List Char) : (quotedKind mark body).Spells (mark :: (body ++ [mark])) body := by
  unfold quotedKind
  split <;> exact ⟨mark, isMark, rfl⟩

theorem quoted?_spells {mark : Char} (isMark : mark = singleQuote ∨ mark = doubleQuote)
    {text : List Char} {lexeme : Lexeme} (h : quoted? mark text = some lexeme) :
    lexeme.kind.Spells lexeme.text lexeme.value := by
  unfold quoted? at h
  split at h
  · cases h
  · split at h
    · dsimp only at h
      split at h
      · cases h
      · obtain rfl := Option.some.inj h
        exact spells_of_quotedKind isMark _
    · cases h

theorem symbol?_spells {text : List Char} {lexeme : Lexeme} (h : symbol? text = some lexeme) :
    lexeme.kind.Spells lexeme.text lexeme.value := by
  obtain ⟨entry, found, rfl⟩ := Option.map_eq_some_iff.1 h
  exact (isPlain_of_mem_symbols entry (List.mem_of_find?_eq_some found)).spells _

theorem first?_spells {text : List Char} {lexeme : Lexeme} (h : first? text = some lexeme) :
    lexeme.kind.Spells lexeme.text lexeme.value := by
  obtain ⟨lexeme?, mem, h⟩ := List.exists_of_findSome?_eq_some h
  simp only [classes, List.mem_cons, List.not_mem_nil, or_false] at mem
  rcases mem with rfl | rfl | rfl | rfl | rfl
  · exact word?_spells h
  · exact number?_spells h
  · exact quoted?_spells (.inl rfl) h
  · exact quoted?_spells (.inr rfl) h
  · exact symbol?_spells h

theorem next_spells (c : Char) (rest : List Char) :
    (next c rest).kind.Spells (next c rest).text (next c rest).value := by
  unfold next
  cases h : first? (c :: rest) with
  | none => exact ⟨rfl, rfl⟩
  | some lexeme => exact first?_spells h

theorem next_prefix (c : Char) (rest : List Char) : (next c rest).text <+: c :: rest := by
  unfold next
  cases h : first? (c :: rest) with
  | none => exact ⟨rest, rfl⟩
  | some lexeme => exact first?_isPrefix h

end Lexeme

/-! ### Tilings -/

/-- The text from an offset of a file on, cut into layout and the texts of tokens. The last token
ends the input. -/
inductive Tiles (file : String) : Nat → List Char → List Token → Prop where
  | last {offset gap} :
      (∀ c ∈ gap, Cursor.isLayout c) →
      Tiles file offset gap [Token.endOfInput (Position.ofBytes file (offset + byteSize gap))]
  | token {offset gap c text rest token tokens} :
      (∀ c ∈ gap, Cursor.isLayout c) → ¬ Cursor.isLayout c → token.kind ≠ .eof →
      token.kind.Spells (c :: text) token.value.toList →
      token.span = Span.ofBytes file (offset + byteSize gap)
        (offset + byteSize gap + byteSize (c :: text)) →
      Tiles file (offset + byteSize gap + byteSize (c :: text)) rest tokens →
      Tiles file offset (gap ++ (c :: text ++ rest)) (token :: tokens)

namespace Cursor

theorem next_of_rest_skipLayout_nil {cursor : Cursor} (h : cursor.skipLayout.rest = []) :
    cursor.next =
      (Token.endOfInput (Position.ofBytes cursor.file cursor.skipLayout.offset),
        cursor.skipLayout) := by
  unfold next read
  rw [h]
  rfl

theorem next_of_rest_skipLayout_cons {cursor : Cursor} {c : Char} {rest : List Char}
    (h : cursor.skipLayout.rest = c :: rest) :
    cursor.next =
      (cursor.skipLayout.tokenOf (Lexeme.next c rest),
        cursor.skipLayout.pass (Lexeme.next c rest).text) := by
  unfold next read
  rw [h]
  rfl

theorem rest_skipLayout (cursor : Cursor) :
    cursor.skipLayout.rest = cursor.rest.dropWhile isLayout := by
  have parts : cursor.rest =
      cursor.rest.takeWhile isLayout ++ cursor.rest.dropWhile isLayout :=
    List.takeWhile_append_dropWhile.symm
  exact Scans.rest_pass parts

/-- The text behind layout starts with none. -/
theorem not_isLayout_of_rest_skipLayout {cursor : Cursor} {c : Char} {rest : List Char}
    (h : cursor.skipLayout.rest = c :: rest) : ¬ isLayout c := by
  have stopped := List.head?_dropWhile_not isLayout cursor.rest
  rw [← rest_skipLayout, h] at stopped
  simpa using stopped

end Cursor

namespace Lexeme

/-- The next lexeme starts with the next character. -/
theorem next_text (c : Char) (rest : List Char) :
    ∃ text more, (next c rest).text = c :: text ∧ rest = text ++ more := by
  obtain ⟨more, split⟩ := next_prefix c rest
  cases eq : (next c rest).text with
  | nil => exact absurd eq (next_proper c rest).1
  | cons first text =>
    rw [eq, List.cons_append] at split
    obtain ⟨rfl, rfl⟩ := List.cons.inj split
    exact ⟨text, more, rfl, rfl⟩

end Lexeme

namespace Scanner

/-- The tokens of a scanner tile the text at its cursor. -/
theorem tiles_ofCursor (cursor : Cursor) :
    Tiles cursor.file cursor.offset cursor.rest (TokenSource.tokens (ofCursor cursor)) := by
  induction length : cursor.rest.length using Nat.strongRecOn generalizing cursor with
  | ind length ih =>
    have gap : ∀ c ∈ cursor.rest.takeWhile Cursor.isLayout, Cursor.isLayout c :=
      fun c mem => List.mem_takeWhile_imp mem
    have parts : cursor.rest.takeWhile Cursor.isLayout ++ cursor.skipLayout.rest = cursor.rest := by
      rw [Cursor.rest_skipLayout, List.takeWhile_append_dropWhile]
    cases behind : cursor.skipLayout.rest with
    | nil =>
      have read := Cursor.next_of_rest_skipLayout_nil behind
      have isEnd : (TokenSource.current (ofCursor cursor)).kind = .eof := by
        show cursor.next.1.kind = .eof
        rw [read]
        rfl
      rw [behind, List.append_nil] at parts
      rw [parts] at gap
      have offset : cursor.skipLayout.offset = cursor.offset + byteSize cursor.rest :=
        congrArg (cursor.offset + byteSize ·) parts
      rw [TokenSource.tokens_of_eof isEnd]
      show Tiles cursor.file cursor.offset cursor.rest [cursor.next.1]
      rw [read, offset]
      exact .last gap
    | cons c rest =>
      have read := Cursor.next_of_rest_skipLayout_cons behind
      have notEnd : (TokenSource.current (ofCursor cursor)).kind ≠ .eof := by
        show cursor.next.1.kind ≠ .eof
        rw [read]
        exact (Lexeme.next_proper c rest).2
      obtain ⟨text, more, textEq, rfl⟩ := Lexeme.next_text c rest
      have spells := Lexeme.next_spells c (text ++ more)
      rw [textEq] at read spells
      have rest : cursor.next.2.rest = more := by
        rw [read]
        exact Scans.rest_pass behind
      have shorter := cursor.length_rest_next_lt notEnd
      have later := ih _ (length ▸ shorter) cursor.next.2 rfl
      rw [TokenSource.tokens_of_ne_eof notEnd, ← parts, behind]
      show Tiles _ _ _ (cursor.next.1 :: TokenSource.tokens (ofCursor cursor.next.2))
      rw [rest, read] at later
      rw [read]
      refine .token gap (Cursor.not_isLayout_of_rest_skipLayout behind)
        (Lexeme.next_proper c (text ++ more)).2 ?_ ?_ later
      · show (Lexeme.next c (text ++ more)).kind.Spells _ (String.ofList _).toList
        rwa [String.toList_ofList]
      · show Span.ofBytes _ _ _ = _
        rw [textEq]
        rfl

/-- The tokens of a source tile it from its beginning on. -/
theorem tiles_ofSource (source file : String) :
    Tiles file 0 source.toList (TokenSource.tokens (ofSource source file)) :=
  tiles_ofCursor (Cursor.ofSource source file)

/-- Behind the end of its input a scanner finds the end again. -/
theorem advance_ofCursor_of_eof {cursor : Cursor} (h : (ofCursor cursor).current.kind = .eof) :
    (ofCursor cursor).advance = ofCursor cursor := by
  have nothing : cursor.skipLayout.rest = [] := by
    cases behind : cursor.skipLayout.rest with
    | nil => rfl
    | cons c rest =>
      have isEnd : cursor.next.1.kind = .eof := h
      rw [Cursor.next_of_rest_skipLayout_cons behind] at isEnd
      exact absurd isEnd (Lexeme.next_proper c rest).2
  have stays : cursor.skipLayout.skipLayout = cursor.skipLayout := by
    rw [Cursor.skipLayout, nothing]
    rfl
  show ofCursor cursor.next.2 = ofCursor cursor
  refine ofCursor_congr ?_
  rw [Cursor.next_of_rest_skipLayout_nil nothing]
  show cursor.skipLayout.next = _
  rw [Cursor.next_of_rest_skipLayout_nil (by rw [stays]; exact nothing), stays]
  rfl

/-- What the calls of `advance` give one after the other: the tokens, and then the end of the input
for ever. -/
theorem current_iterate_advance (cursor : Cursor) {front : List Token} {last : Token}
    (h : TokenSource.tokens (ofCursor cursor) = front ++ [last]) (n : Nat) :
    TokenSource.current (TokenSource.advance^[n] (ofCursor cursor)) =
      ((front ++ [last])[n]?).getD last := by
  induction n generalizing cursor front with
  | zero =>
    obtain ⟨later, first⟩ := TokenSource.tokens_eq_cons (ofCursor cursor)
    rw [← h, first]
    rfl
  | succ n ih =>
    rw [Function.iterate_succ_apply]
    by_cases isEnd : (TokenSource.current (ofCursor cursor)).kind = .eof
    · -- The scanner stays where it is, so the first calls give what the later ones give.
      have stays : TokenSource.advance (ofCursor cursor) = ofCursor cursor :=
        advance_ofCursor_of_eof isEnd
      have only : [] ++ [TokenSource.current (ofCursor cursor)] = front ++ [last] :=
        (TokenSource.tokens_of_eof isEnd).symm.trans h
      obtain ⟨rfl, -⟩ := List.append_inj' only rfl
      rw [stays, ih cursor h]
      cases n <;> rfl
    · rw [TokenSource.tokens_of_ne_eof isEnd] at h
      obtain ⟨later, next⟩ := TokenSource.tokens_eq_cons (TokenSource.advance (ofCursor cursor))
      cases front with
      | nil =>
        rw [next] at h
        cases h
      | cons first front =>
        exact ih cursor.next.2 (List.cons.inj h).2

end Scanner

/-! ### Offsets -/

/-- The number of bytes before a position. -/
def Position.bytes (position : Position) : Nat :=
  position.offset.toNat

/-- The one stretch ends before the other starts. -/
def Span.Before (span span' : Span) : Prop :=
  span.stop.bytes ≤ span'.start.bytes

theorem Position.bytes_ofBytes {bytes : Nat} (short : bytes < UInt32.size) (file : String) :
    (Position.ofBytes file bytes).bytes = bytes :=
  UInt32.toNat_ofNat_of_lt' short

theorem Span.bytes_of_ofBytes {file : String} {span : Span} {start stop : Nat}
    (h : span = Span.ofBytes file start stop) (le : start ≤ stop) (short : stop < UInt32.size) :
    span.start.bytes = start ∧ span.stop.bytes = stop := by
  subst h
  exact ⟨Position.bytes_ofBytes (Nat.lt_of_le_of_lt le short) file,
    Position.bytes_ofBytes short file⟩

/-- A token covers a slice of the source that is not empty and that spells its value. -/
def Token.Covers (source : List Char) (token : Token) : Prop :=
  ∃ text, text ≠ [] ∧ IsSlice source token.span.start.bytes token.span.stop.bytes text ∧
    token.kind.Spells text token.value.toList

theorem Token.Covers.start_lt_stop {source : List Char} {token : Token} (h : token.Covers source) :
    token.span.start.bytes < token.span.stop.bytes := by
  obtain ⟨text, notEmpty, ⟨_, _, _, _, stop⟩, _⟩ := h
  obtain ⟨c, rest, rfl⟩ := List.exists_cons_of_ne_nil notEmpty
  have size := Text.byteSize_pos c rest
  omega

/-- Between two byte offsets of a text there is nothing but layout. -/
def Text.IsGap (text : List Char) (start stop : Nat) : Prop :=
  ∃ gap, IsSlice text start stop gap ∧ ∀ c ∈ gap, Cursor.isLayout c

namespace Tiles

variable {file : String} {offset : Nat} {text : List Char} {tokens : List Token}

/-- The last token is the end of the input, and no other one is. -/
theorem exists_last (h : Tiles file offset text tokens) :
    ∃ front position, tokens = front ++ [Token.endOfInput position] ∧
      ∀ token ∈ front, token.kind ≠ .eof := by
  induction h with
  | last => exact ⟨[], _, rfl, fun _ mem => absurd mem List.not_mem_nil⟩
  | @token _ _ _ _ _ token _ _ _ notEnd _ _ _ ih =>
    obtain ⟨front, position, rfl, before⟩ := ih
    exact ⟨token :: front, position, rfl, List.forall_mem_cons.2 ⟨notEnd, before⟩⟩

/-- The tokens of a text stand in their order, from the beginning of the text on. -/
theorem ordered (h : Tiles file offset text tokens) (short : offset + byteSize text < UInt32.size) :
    (∀ token ∈ tokens, offset ≤ token.span.start.bytes) ∧
      tokens.Pairwise fun token token' => token.span.Before token'.span := by
  induction h with
  | @last offset gap isLayout =>
    refine ⟨?_, List.pairwise_singleton _ _⟩
    intro token mem
    rw [List.mem_singleton.1 mem]
    show offset ≤ (Position.ofBytes file (offset + byteSize gap)).bytes
    rw [Position.bytes_ofBytes short]
    exact Nat.le_add_right _ _
  | @token offset gap c text rest token tokens _ _ _ _ span _ ih =>
    rw [byteSize_append, byteSize_append] at short
    obtain ⟨behind, ordered⟩ := ih (by omega)
    obtain ⟨start, stop⟩ := Span.bytes_of_ofBytes span (Nat.le_add_right _ _) (by omega)
    refine ⟨?_, List.pairwise_cons.2 ⟨?_, ordered⟩⟩
    · intro token' mem
      rcases List.mem_cons.1 mem with rfl | mem
      · omega
      · have := behind token' mem
        omega
    · intro token' mem
      show token.span.stop.bytes ≤ token'.span.start.bytes
      rw [stop]
      exact behind token' mem

/-- In a source that its offsets can measure, the tokens cover slices that spell their values, and
what stands between these slices is layout. -/
theorem covers (h : Tiles file offset text tokens) {before : List Char}
    (start : byteSize before = offset) (short : byteSize (before ++ text) < UInt32.size) :
    ∃ front,
      tokens = front ++
        [Token.endOfInput (Position.ofBytes file (byteSize (before ++ text)))] ∧
      (∀ token ∈ front, token.kind ≠ .eof ∧ token.Covers (before ++ text)) ∧
      List.Forall₂ (Text.IsGap (before ++ text))
        (offset :: front.map fun token => token.span.stop.bytes)
        (tokens.map fun token => token.span.start.bytes) := by
  induction h generalizing before with
  | @last offset gap isLayout =>
    rw [byteSize_append, start] at short
    refine ⟨[], ?_, fun _ mem => absurd mem List.not_mem_nil, .cons ?_ .nil⟩
    · rw [byteSize_append, start]
      rfl
    · show Text.IsGap _ _ (Position.ofBytes file (offset + byteSize gap)).bytes
      rw [Position.bytes_ofBytes short]
      exact ⟨gap, ⟨before, [], by rw [List.append_nil], start, rfl⟩, isLayout⟩
  | @token offset gap c text rest token tokens isLayout _ notEnd spells span _ ih =>
    have whole : before ++ (gap ++ (c :: text ++ rest)) = before ++ gap ++ (c :: text) ++ rest := by
      simp only [List.append_assoc]
    rw [whole] at short ⊢
    have size : byteSize (before ++ gap ++ (c :: text)) =
        offset + byteSize gap + byteSize (c :: text) := by
      rw [byteSize_append, byteSize_append, start]
    obtain ⟨front, rfl, covers, gaps⟩ := ih size short
    rw [byteSize_append, size] at short
    obtain ⟨startEq, stopEq⟩ := Span.bytes_of_ofBytes span (Nat.le_add_right _ _) (by omega)
    refine ⟨token :: front, rfl, List.forall_mem_cons.2 ⟨⟨notEnd, ?_⟩, covers⟩, .cons ?_ ?_⟩
    · refine ⟨c :: text, List.cons_ne_nil _ _, ⟨before ++ gap, rest, ?_, ?_, ?_⟩, spells⟩
      · rw [List.append_assoc]
      · rw [byteSize_append, start, startEq]
      · rw [startEq, stopEq]
    · show Text.IsGap _ offset token.span.start.bytes
      rw [startEq]
      refine ⟨gap, ⟨before, c :: text ++ rest, ?_, start, rfl⟩, isLayout⟩
      simp only [List.append_assoc]
    · show List.Forall₂ _ (token.span.stop.bytes :: _) _
      rw [stopEq]
      exact gaps

end Tiles

/-- Each token of a source starts behind the start of the one before. -/
theorem Scanner.starts_ordered {source : String} (file : String)
    (short : source.utf8ByteSize < UInt32.size) :
    (TokenSource.tokens (Scanner.ofSource source file)).Pairwise fun token token' =>
      token.start.bytes < token'.start.bytes := by
  rw [← Text.byteSize_toList source] at short
  have tiles := Scanner.tiles_ofSource source file
  obtain ⟨front, eq, covers, -⟩ := tiles.covers (show byteSize [] = 0 from rfl) short
  have ordered := (tiles.ordered (by rwa [Nat.zero_add])).2
  rw [eq] at ordered ⊢
  obtain ⟨inner, -, behind⟩ := List.pairwise_append.1 ordered
  have proper : ∀ token ∈ front, ∀ token' : Token, token.span.Before token'.span →
      token.start.bytes < token'.start.bytes := fun token mem token' before =>
    Nat.lt_of_lt_of_le (covers token mem).2.start_lt_stop before
  refine List.pairwise_append.2 ⟨?_, List.pairwise_singleton _ _, ?_⟩
  · exact inner.imp_of_mem fun mem _ before => proper _ mem _ before
  · exact fun token mem token' mem' => proper token mem token' (behind token mem token' mem')

/-- **Scanning loses nothing.** The tokens of a source that 32 bits can measure are in their order
and do not overlap, and each but the last covers a slice that spells its value. Before, between and
behind them there is nothing but layout. The last token is the end of the input at the end of the
source, and a scanner that goes on finds it again and again. -/
theorem scanner_lossless {source : String} (file : String)
    (short : source.utf8ByteSize < UInt32.size) :
    ∃ front last, TokenSource.tokens (Scanner.ofSource source file) = front ++ [last] ∧
      (∀ token ∈ front, token.kind ≠ .eof ∧ token.Covers source.toList) ∧
      (front ++ [last]).Pairwise (fun token token' => token.span.Before token'.span) ∧
      List.Forall₂ (Text.IsGap source.toList)
        (0 :: front.map fun token => token.span.stop.bytes)
        ((front ++ [last]).map fun token => token.span.start.bytes) ∧
      last = Token.endOfInput (Position.ofBytes file source.utf8ByteSize) ∧
      last.start.bytes = source.utf8ByteSize ∧
      ∀ n, TokenSource.current (TokenSource.advance^[n] (Scanner.ofSource source file)) =
        ((front ++ [last])[n]?).getD last := by
  have size := Text.byteSize_toList source
  rw [← size] at short
  have tiles := Scanner.tiles_ofSource source file
  obtain ⟨front, eq, covers, gaps⟩ := tiles.covers (show byteSize [] = 0 from rfl) short
  have ordered := (tiles.ordered (by rwa [Nat.zero_add])).2
  rw [eq] at ordered gaps
  rw [List.nil_append, size] at eq ordered gaps
  refine ⟨front, _, eq, covers, ordered, gaps, rfl, ?_, ?_⟩
  · exact Position.bytes_ofBytes (size ▸ short) file
  · exact Scanner.current_iterate_advance (Cursor.ofSource source file) eq

/-- An unknown character, and a character of two bytes behind a gap of three. -/
theorem scanner_lossless_unknown :
    "#\r\n 'é'".utf8ByteSize < UInt32.size ∧
      ∀ n, 2 ≤ n →
        TokenSource.current (TokenSource.advance^[n] (Scanner.ofSource "#\r\n 'é'" "shell")) =
          Token.endOfInput ⟨8, "shell"⟩ := by
  have short : "#\r\n 'é'".utf8ByteSize < UInt32.size := by decide
  refine ⟨short, fun n many => ?_⟩
  obtain ⟨front, last, tokens, -, -, -, isEnd, -, reads⟩ := scanner_lossless "shell" short
  have count : (TokenSource.tokens (Scanner.ofSource "#\r\n 'é'" "shell")).length = 3 := by decide
  rw [tokens, List.length_append, List.length_singleton, Nat.succ_inj] at count
  rw [reads n, List.getElem?_append_right (count ▸ many), isEnd]
  cases n - front.length <;> rfl

end ExprCheck
