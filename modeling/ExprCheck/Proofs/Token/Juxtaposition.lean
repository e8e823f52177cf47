import ExprCheck.Proofs.Token.Tiling

/-!
# Texts side by side

* `Position.shift`, `Token.shift`, `Cursor.shift`: places a number of bytes further on in a file.
* `Scanner.tokens_shift`: a scanner further on over the same text has the same tokens, further on.
* `Scans.tokens_followedBy`: before a text at which every lexeme has ended, the tokens of a text are
  those that it has alone.
* `Scanner.tokens_append`: the tokens of two sources with layout between them.
* `Token.IsFurther`: the same token a number of bytes further on, with offsets that do not wrap.
* `tokenize_ok_behind`, `tokenize_error_behind`: scanning a source behind known tokens.
* `tokenize_append`: so scanning distributes over two sources with layout between them.
-/

namespace ExprCheck

open Text (byteSize byteSize_append)

/-! ### Places further on -/

/-- The position so many bytes further on. -/
def Position.shift (bytes : Nat) (position : Position) : Position :=
  .ofBytes position.file (position.offset.toNat + bytes)

/-- The stretch so many bytes further on. -/
def Span.shift (bytes : Nat) (span : Span) : Span :=
  ⟨span.start.shift bytes, span.stop.shift bytes⟩

/-- The token so many bytes further on. -/
def Token.shift (bytes : Nat) (token : Token) : Token :=
  { token with span := token.span.shift bytes }

/-- The report of the same fault so many bytes further on. -/
def Diagnostic.shift (bytes : Nat) (diagnostic : Diagnostic) : Diagnostic :=
  { diagnostic with position := diagnostic.position.shift bytes }

/-- The cursor over the same text, so many bytes further on. -/
def Cursor.shift (bytes : Nat) (cursor : Cursor) : Cursor :=
  { cursor with offset := cursor.offset + bytes }

theorem Position.shift_ofBytes (bytes offset : Nat) (file : String) :
    (ofBytes file offset).shift bytes = ofBytes file (offset + bytes) := by
  unfold shift ofBytes
  congr 1
  apply UInt32.toNat_inj.1
  rw [UInt32.toNat_ofNat', UInt32.toNat_ofNat', UInt32.toNat_ofNat', Nat.mod_add_mod]

theorem Position.bytes_shift {bytes : Nat} {position : Position}
    (short : position.bytes + bytes < UInt32.size) :
    (position.shift bytes).bytes = position.bytes + bytes :=
  bytes_ofBytes short position.file

namespace Cursor

variable (bytes : Nat) (cursor : Cursor)

theorem pass_shift (text : List Char) :
    (cursor.shift bytes).pass text = (cursor.pass text).shift bytes := by
  simp only [pass, shift, Nat.add_right_comm]

theorem tokenOf_shift (lexeme : Lexeme) :
    (cursor.shift bytes).tokenOf lexeme = (cursor.tokenOf lexeme).shift bytes := by
  simp only [tokenOf, Token.shift, Span.shift, Span.ofBytes, Position.shift_ofBytes, pass_shift]
  rfl

/-- What is read so many bytes further on is what is read here, so many bytes further on. -/
theorem next_shift :
    (cursor.shift bytes).next = (cursor.next.1.shift bytes, cursor.next.2.shift bytes) := by
  have skipped : (cursor.shift bytes).skipLayout = cursor.skipLayout.shift bytes :=
    cursor.pass_shift bytes _
  cases behind : cursor.skipLayout.rest with
  | nil =>
    rw [next_of_rest_skipLayout_nil behind, next_of_rest_skipLayout_nil (skipped ▸ behind), skipped]
    simp only [Token.endOfInput, Token.shift, Span.empty, Span.shift, Position.shift_ofBytes]
    rfl
  | cons c rest =>
    have behind' : (cursor.shift bytes).skipLayout.rest = c :: rest := by
      rw [skipped]
      exact behind
    have reads := next_of_rest_skipLayout_cons behind'
    rw [skipped] at reads
    have token := cursor.skipLayout.tokenOf_shift bytes (Lexeme.next c rest)
    rw [next_of_rest_skipLayout_cons behind, reads, pass_shift]
    exact congrArg (·, _) token

end Cursor

/-- The tokens of a scanner further on are its tokens, further on. -/
theorem Scanner.tokens_shift (bytes : Nat) (cursor : Cursor) :
    TokenSource.tokens (ofCursor (cursor.shift bytes)) =
      (TokenSource.tokens (ofCursor cursor)).map (Token.shift bytes) := by
  induction length : cursor.rest.length using Nat.strongRecOn generalizing cursor with
  | ind length ih =>
    have read := cursor.next_shift bytes
    by_cases isEnd : cursor.next.1.kind = .eof
    · rw [tokens_of_next_eof read isEnd, tokens_of_next_eof (Prod.eta cursor.next).symm isEnd,
        List.map_singleton]
    · have shorter := cursor.length_rest_next_lt isEnd
      rw [tokens_of_next read isEnd, tokens_of_next (Prod.eta cursor.next).symm isEnd,
        List.map_cons, ih _ (length ▸ shorter) cursor.next.2 rfl]

/-! ### Texts side by side -/

/-- The cursor over its text and more text behind it. -/
def Cursor.followedBy (more : List Char) (cursor : Cursor) : Cursor :=
  { cursor with rest := cursor.rest ++ more }

theorem Cursor.pass_followedBy {cursor : Cursor} {text : List Char} (h : text <+: cursor.rest)
    (more : List Char) :
    (cursor.followedBy more).pass text = (cursor.pass text).followedBy more := by
  simp only [pass, followedBy, List.drop_append_of_le_length h.length_le]

/-- Before a text at which every lexeme has ended, a text scans to the tokens that it has alone, and
the tokens of the other text come after them. -/
theorem Scans.tokens_followedBy {text more : List Char} {tokens : List Token}
    (h : Scans text tokens) (breaks : Lexeme.Breaks more) {cursor : Cursor}
    (eq : cursor.rest = text) :
    TokenSource.tokens (Scanner.ofCursor (cursor.followedBy more)) =
      (TokenSource.tokens (Scanner.ofCursor cursor)).dropLast ++
        TokenSource.tokens (Scanner.ofCursor ((cursor.followedBy more).pass text)) := by
  induction h generalizing cursor with
  | nil =>
    rw [Scanner.tokens_of_next_eof (Cursor.next_of_nil eq) rfl]
    rfl
  | @layout c text tokens isLayout scans ih =>
    have rest : (cursor.pass [c]).rest = text := rest_pass eq
    have standsThere : [c] <+: cursor.rest := eq ▸ ⟨text, rfl⟩
    have passed := Cursor.pass_followedBy standsThere more
    have eq' : (cursor.followedBy more).rest = c :: (text ++ more) := congrArg (· ++ more) eq
    have here := Scanner.ofCursor_congr (Cursor.next_pass_layout isLayout eq)
    have here' := Scanner.ofCursor_congr (Cursor.next_pass_layout isLayout eq')
    rw [passed] at here'
    rw [← here, ← here', ih rest, ← passed, Cursor.pass_pass]
    rfl
  | @lexeme lexeme later tokens found scans ih =>
    have rest : (cursor.pass lexeme.text).rest = later := rest_pass eq
    have standsThere : lexeme.text <+: cursor.rest := eq ▸ ⟨later, rfl⟩
    have passed := Cursor.pass_followedBy standsThere more
    have found' : Lexeme.first? (cursor.followedBy more).rest = some lexeme := by
      show Lexeme.first? (cursor.rest ++ more) = some lexeme
      rw [eq]
      exact Lexeme.first?_append found breaks
    rw [← eq] at found
    obtain ⟨_, another⟩ :=
      TokenSource.tokens_eq_cons (Scanner.ofCursor (cursor.pass lexeme.text))
    have first : (cursor.followedBy more).tokenOf lexeme = cursor.tokenOf lexeme := rfl
    rw [Scanner.tokens_of_first? found, Scanner.tokens_of_first? found', passed, ih rest, first,
      List.dropLast_cons_of_ne_nil (by rw [another]; exact List.cons_ne_nil _ _), ← passed,
      Cursor.pass_pass]
    rfl

/-- The tokens of two sources with layout between them are those of the first, but for its end of
input, and those of the second so much further on. -/
theorem Scanner.tokens_append {first layout second file : String} {tokens : List Token}
    (isLayout : ∀ c ∈ layout.toList, Cursor.isLayout c) (notEmpty : layout ≠ "")
    (scanned : tokenize first file = .ok tokens) :
    TokenSource.tokens (Scanner.ofSource (first ++ layout ++ second) file) =
      tokens.dropLast ++ (TokenSource.tokens (Scanner.ofSource second file)).map
        (Token.shift (first.utf8ByteSize + layout.utf8ByteSize)) := by
  obtain ⟨rfl, known⟩ := tokenize_ok.1 scanned
  have breaks : Lexeme.Breaks (layout.toList ++ second.toList) := by
    cases eq : layout.toList with
    | nil => exact absurd (String.toList_eq_nil_iff.1 eq) notEmpty
    | cons c gap => exact Lexeme.breaks_of_isLayout (isLayout c (eq ▸ List.mem_cons_self)) _
  have scans : Scans first.toList _ := @Scans.of_tokens (Cursor.ofSource first file) known
  have atStart : (Cursor.ofSource first file).rest = first.toList := rfl
  have split := scans.tokens_followedBy breaks atStart
  have whole : (Cursor.ofSource first file).followedBy (layout.toList ++ second.toList) =
      Cursor.ofSource (first ++ layout ++ second) file := by
    simp [Cursor.followedBy, Cursor.ofSource]
  -- Behind the first source and the layout, the cursor stands before the second source.
  have behind : ((Cursor.ofSource (first ++ layout ++ second) file).pass first.toList).rest =
      layout.toList ++ second.toList :=
    Scans.rest_pass (by simp [Cursor.ofSource])
  have arrives : ((Cursor.ofSource (first ++ layout ++ second) file).pass first.toList).pass
      layout.toList =
        (Cursor.ofSource second file).shift (first.utf8ByteSize + layout.utf8ByteSize) := by
    rw [Cursor.pass_pass, ← Text.byteSize_toList, ← Text.byteSize_toList, ← byteSize_append]
    simp [Cursor.pass, Cursor.shift, Cursor.ofSource]
  rw [whole, ← ofCursor_pass_layout isLayout behind, arrives, tokens_shift] at split
  exact split

/-! ### Offsets -/

/-- No token reaches behind the end of its source. -/
theorem Scanner.stop_le {source file : String} (short : source.utf8ByteSize < UInt32.size) :
    ∀ token ∈ TokenSource.tokens (Scanner.ofSource source file),
      token.span.start.bytes ≤ source.utf8ByteSize ∧
        token.span.stop.bytes ≤ source.utf8ByteSize := by
  have size := Text.byteSize_toList source
  rw [← size] at short ⊢
  obtain ⟨front, eq, covers, -⟩ :=
    (tiles_ofSource source file).covers (show byteSize [] = 0 from rfl) short
  intro token mem
  rw [eq, List.mem_append, List.mem_singleton] at mem
  rcases mem with mem | rfl
  · obtain ⟨text, -, ⟨before, after, split, start, stop⟩, -⟩ := (covers token mem).2
    have whole := congrArg byteSize split
    rw [List.nil_append, byteSize_append, byteSize_append] at whole
    omega
  · have isEnd := Position.bytes_ofBytes short file
    exact ⟨Nat.le_of_eq isEnd, Nat.le_of_eq isEnd⟩

/-- The position is in the same file, so many bytes further on. -/
def Position.IsFurther (bytes : Nat) (position position' : Position) : Prop :=
  position'.file = position.file ∧ position'.bytes = position.bytes + bytes

/-- The token is the same one, so many bytes further on. -/
def Token.IsFurther (bytes : Nat) (token token' : Token) : Prop :=
  token'.kind = token.kind ∧ token'.value = token.value ∧
    token.span.start.IsFurther bytes token'.span.start ∧
    token.span.stop.IsFurther bytes token'.span.stop

theorem Position.isFurther_shift {bytes : Nat} {position : Position}
    (short : position.bytes + bytes < UInt32.size) :
    position.IsFurther bytes (position.shift bytes) :=
  ⟨rfl, bytes_shift short⟩

/-- The tokens of a source, moved behind other text. No offset wraps if 32 bits can measure all of
it. -/
theorem Scanner.isFurther_shift (source file : String) {bytes : Nat}
    (short : source.utf8ByteSize + bytes < UInt32.size) :
    ∀ token ∈ TokenSource.tokens (Scanner.ofSource source file),
      token.IsFurther bytes (token.shift bytes) := by
  intro token mem
  obtain ⟨start, stop⟩ := stop_le (by omega) token mem
  exact ⟨rfl, rfl, Position.isFurther_shift (by omega), Position.isFurther_shift (by omega)⟩

section Behind

variable {source second file : String} {front : List Token} {bytes : Nat}

/-- Behind known tokens, the tokens of a source that scans are known, too. -/
theorem tokenize_ok_behind (known : ∀ token ∈ front, token.kind ≠ .unknown)
    (whole : TokenSource.tokens (Scanner.ofSource source file) =
      front ++ (TokenSource.tokens (Scanner.ofSource second file)).map (Token.shift bytes))
    (short : second.utf8ByteSize + bytes < UInt32.size) (later : List Token)
    (scanned : tokenize second file = .ok later) :
    ∃ later', tokenize source file = .ok (front ++ later') ∧
      List.Forall₂ (Token.IsFurther bytes) later later' := by
  obtain ⟨rfl, knownLater⟩ := tokenize_ok.1 scanned
  refine ⟨_, tokenize_ok.2 ⟨whole.symm, fun token mem => ?_⟩, ?_⟩
  · rcases List.mem_append.1 mem with mem | mem
    · exact known token mem
    · obtain ⟨token, ofLater, rfl⟩ := List.mem_map.1 mem
      exact knownLater token ofLater
  · rw [List.forall₂_map_right_iff, List.forall₂_same]
    exact Scanner.isFurther_shift second file short

/-- Behind known tokens, the first unknown token is the one of a source that does not scan. -/
theorem tokenize_error_behind (known : ∀ token ∈ front, token.kind ≠ .unknown)
    (whole : TokenSource.tokens (Scanner.ofSource source file) =
      front ++ (TokenSource.tokens (Scanner.ofSource second file)).map (Token.shift bytes))
    (short : second.utf8ByteSize + bytes < UInt32.size) (diagnostic : Diagnostic)
    (failed : tokenize second file = .error diagnostic) :
    ∃ position, tokenize source file = .error { diagnostic with position := position } ∧
      diagnostic.position.IsFurther bytes position := by
  obtain ⟨token, later, eq, isUnknown, rfl⟩ := tokenize_error_known failed
  have mem : token ∈ TokenSource.tokens (Scanner.ofSource second file) := by
    rw [eq]
    exact List.mem_append_right _ List.mem_cons_self
  have further := Scanner.isFurther_shift second file short token mem
  rw [eq, List.map_append, ← List.append_assoc] at whole
  refine ⟨(token.shift bytes).start, ?_, further.2.2.1⟩
  refine tokenize_error_of_tokens whole (fun earlier mem => ?_) isUnknown
  rcases List.mem_append.1 mem with mem | mem
  · exact known earlier mem
  · obtain ⟨earlier, isKnown, rfl⟩ := List.mem_map.1 mem
    show earlier.kind ≠ .unknown
    simpa using List.mem_takeWhile_imp isKnown

end Behind

/-- **Scanning distributes over texts side by side.** Two sources with layout between them, of which
the first scans, scan exactly when the second does. The tokens are those of the first without its
end of input, and behind them those of the second, further on by the bytes of the first source and
of the layout. If the second fails, the whole fails at the same character so much further on. -/
theorem tokenize_append {first layout second file : String} {tokens : List Token}
    (isLayout : ∀ c ∈ layout.toList, Cursor.isLayout c) (notEmpty : layout ≠ "")
    (short : (first ++ layout ++ second).utf8ByteSize < UInt32.size)
    (scanned : tokenize first file = .ok tokens) :
    ∃ front last, tokens = front ++ [last] ∧ last.kind = .eof ∧
      ((∃ all, tokenize (first ++ layout ++ second) file = .ok all) ↔
        ∃ later, tokenize second file = .ok later) ∧
      (∀ later, tokenize second file = .ok later →
        ∃ later', tokenize (first ++ layout ++ second) file = .ok (front ++ later') ∧
          List.Forall₂ (Token.IsFurther (first.utf8ByteSize + layout.utf8ByteSize)) later later') ∧
      ∀ diagnostic, tokenize second file = .error diagnostic →
        ∃ position, tokenize (first ++ layout ++ second) file =
            .error { diagnostic with position := position } ∧
          diagnostic.position.IsFurther (first.utf8ByteSize + layout.utf8ByteSize) position := by
  obtain ⟨rfl, known⟩ := tokenize_ok.1 scanned
  obtain ⟨front, last, ends, -, isEnd⟩ := TokenSource.tokens_ends (Scanner.ofSource first file)
  have whole : TokenSource.tokens (Scanner.ofSource (first ++ layout ++ second) file) = _ :=
    Scanner.tokens_append isLayout notEmpty scanned
  rw [ends, List.dropLast_concat] at whole
  have knownFront : ∀ token ∈ front, token.kind ≠ .unknown :=
    fun token mem => known token (ends ▸ List.mem_append_left _ mem)
  rw [String.utf8ByteSize_append, String.utf8ByteSize_append, Nat.add_comm] at short
  have scans := tokenize_ok_behind knownFront whole short
  have fails := tokenize_error_behind knownFront whole short
  refine ⟨front, last, ends, isEnd, ⟨?_, ?_⟩, scans, fails⟩
  · rintro ⟨all, scannedAll⟩
    cases result : tokenize second file with
    | ok later => exact ⟨later, rfl⟩
    | error diagnostic =>
      obtain ⟨position, failed, -⟩ := fails diagnostic result
      cases scannedAll.symm.trans failed
  · rintro ⟨later, scannedLater⟩
    obtain ⟨later', scannedAll, -⟩ := scans later scannedLater
    exact ⟨_, scannedAll⟩

/-- Behind a quoted text of one character that takes two bytes, and layout, there is a character
that starts no token. -/
theorem tokenize_append_accented :
    (∀ c ∈ "\t\n".toList, Cursor.isLayout c) ∧ "\t\n" ≠ "" ∧
      ("\"é\"" ++ "\t\n" ++ "2.é").utf8ByteSize < UInt32.size ∧
      (∃ tokens, tokenize "\"é\"" "shell" = .ok tokens) ∧
      ∃ position, tokenize ("\"é\"" ++ "\t\n" ++ "2.é") "shell" =
          .error ⟨.unrecognisedToken "é", position⟩ ∧
        (Position.mk 2 "shell").IsFurther 6 position := by
  have isLayout : ∀ c ∈ "\t\n".toList, Cursor.isLayout c := List.all_eq_true.1 (by decide)
  have notEmpty : "\t\n" ≠ "" := by decide
  have short : ("\"é\"" ++ "\t\n" ++ "2.é").utf8ByteSize < UInt32.size := by decide
  have scanned : tokenize "\"é\"" "shell" = .ok
      [⟨.string, "é", ⟨⟨0, "shell"⟩, ⟨4, "shell"⟩⟩⟩, Token.endOfInput ⟨4, "shell"⟩] := by decide
  have failed : tokenize "2.é" "shell" = .error ⟨.unrecognisedToken "é", ⟨2, "shell"⟩⟩ := by decide
  obtain ⟨_, _, _, _, _, _, fails⟩ := tokenize_append isLayout notEmpty short scanned
  exact ⟨isLayout, notEmpty, short, ⟨_, scanned⟩, fails _ failed⟩

end ExprCheck
