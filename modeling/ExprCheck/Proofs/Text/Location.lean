import ExprCheck.Proofs.Text.Lines

/-!
# The location of a byte offset

* `AreLines text pieces`: the pieces of a text that is cut behind each of its newlines, apart from
  `lines`, which computes them (`areLines_iff`).
* `Location.At pieces offset location`: a location names a character of the pieces, and the
  character starts at the offset.
* `locate?_eq_some_of_lt`: an offset between two characters has the location of the character
  behind it.
* `eq_append_of_locateIn?`: an offset that has a location stands between two characters.
* `Location.At.before`: the locations of characters are in the order of the characters.
* `location_of_offset`: the whole of it, for every text.
-/

namespace ExprCheck.Text

/-! ### The pieces of a text -/

/-- A text is cut behind each of its newlines; what stands behind the last one is a piece unless it
is empty. -/
inductive AreLines : List Char → List (List Char) → Prop where
  | none : AreLines [] []
  | last {piece} : piece ≠ [] → '\n' ∉ piece → AreLines piece [piece]
  | line {stem rest later} : '\n' ∉ stem → AreLines rest later →
      AreLines (stem ++ '\n' :: rest) ((stem ++ ['\n']) :: later)

theorem areLines_lines (text : List Char) : AreLines text (lines text) := by
  induction text with
  | nil => exact .none
  | cons c rest ih =>
    by_cases isNewline : c = '\n'
    · rw [lines, if_pos isNewline, isNewline]
      exact @AreLines.line [] rest _ List.not_mem_nil ih
    · have outside {stem : List Char} (h : '\n' ∉ stem) : '\n' ∉ c :: stem :=
        List.not_mem_cons_of_ne_of_not_mem (Ne.symm isNewline) h
      rw [lines, if_neg isNewline]
      generalize lines rest = pieces at ih
      cases ih with
      | none => exact .last (List.cons_ne_nil _ _) (outside List.not_mem_nil)
      | last _ h => exact .last (List.cons_ne_nil _ _) (outside h)
      | line h later => exact .line (outside h) later

theorem lines_of_newline_not_mem {piece : List Char} (nonempty : piece ≠ [])
    (h : '\n' ∉ piece) : lines piece = [piece] := by
  induction piece with
  | nil => exact absurd rfl nonempty
  | cons c piece ih =>
    rw [List.mem_cons, not_or] at h
    rw [lines, if_neg (Ne.symm h.1)]
    cases piece with
    | nil => rfl
    | cons d piece => rw [ih (List.cons_ne_nil _ _) h.2]

theorem lines_append_newline {stem : List Char} (h : '\n' ∉ stem) (rest : List Char) :
    lines (stem ++ '\n' :: rest) = (stem ++ ['\n']) :: lines rest := by
  induction stem with
  | nil => rw [List.nil_append, lines, if_pos rfl]; rfl
  | cons c stem ih =>
    rw [List.mem_cons, not_or] at h
    rw [List.cons_append, lines, if_neg (Ne.symm h.1), ih h.2]
    rfl

/-- A text has one list of pieces. -/
theorem areLines_iff {text : List Char} {pieces : List (List Char)} :
    AreLines text pieces ↔ pieces = lines text := by
  constructor
  · intro h
    induction h with
    | none => rfl
    | last nonempty h => exact (lines_of_newline_not_mem nonempty h).symm
    | line h _ ih => rw [lines_append_newline h, ih]
  · rintro rfl
    exact areLines_lines text

/-! ### Bytes before a place -/

theorem byteSize_take_add_drop (text : List Char) (count : Nat) :
    byteSize (text.take count) + byteSize (text.drop count) = byteSize text := by
  rw [← byteSize_append, List.take_append_drop]

theorem byteSize_take_lt {text : List Char} {count : Nat} (h : count < text.length) :
    byteSize (text.take count) < byteSize text := by
  have rest := byteSize_pos text[count] (text.drop (count + 1))
  rw [← List.drop_eq_getElem_cons h] at rest
  have := byteSize_take_add_drop text count
  omega

theorem byteSize_take_mono {fewer more : Nat} (h : fewer ≤ more) (text : List Char) :
    byteSize (text.take fewer) ≤ byteSize (text.take more) := by
  have split := byteSize_take_add_drop (text.take more) fewer
  rw [List.take_take, Nat.min_eq_left h] at split
  omega

/-- A column is found only between two characters. -/
theorem eq_append_of_columnAt? {text : List Char} {offset column : Nat}
    (h : columnAt? text offset = some column) :
    ∃ before after, text = before ++ after ∧ byteSize before = offset := by
  fun_induction columnAt? text offset generalizing column with
  | case1 text => exact ⟨[], text, rfl, rfl⟩
  | case2 => cases h
  | case3 => cases h
  | case4 c rest offset notInside ih =>
    obtain ⟨fewer, found, -⟩ := Option.map_eq_some_iff.1 h
    obtain ⟨before, after, rfl, size⟩ := ih found
    exact ⟨c :: before, after, rfl, by rw [byteSize]; omega⟩

/-- An offset that has a location stands between two characters. -/
theorem eq_append_of_locateIn? {number offset : Nat} {all : List (List Char)}
    {location : Location} (h : locateIn? number all offset = some location) :
    ∃ before after, all.flatten = before ++ after ∧ byteSize before = offset := by
  fun_induction locateIn? number all offset with
  | case1 => exact ⟨[], [], rfl, rfl⟩
  | case2 => cases h
  | case3 number line offset inside =>
    obtain ⟨column, found, -⟩ := Option.map_eq_some_iff.1 h
    obtain ⟨before, after, rfl, size⟩ := eq_append_of_columnAt? found
    exact ⟨before, after, by simp, size⟩
  | case4 number line => exact ⟨line, [], by simp, rfl⟩
  | case5 => cases h
  | case6 number line next later offset inside =>
    obtain ⟨column, found, -⟩ := Option.map_eq_some_iff.1 h
    obtain ⟨before, after, rfl, size⟩ := eq_append_of_columnAt? found
    exact ⟨before, after ++ (next :: later).flatten, by simp, size⟩
  | case7 number line next later offset outside ih =>
    obtain ⟨before, after, split, size⟩ := ih h
    refine ⟨line ++ before, after, ?_, ?_⟩
    · rw [List.flatten_cons, split, List.append_assoc]
    · rw [byteSize_append]
      omega

/-- The offsets of a string at which a character starts, and its end. -/
theorem isValid_iff {text : String} {offset : Nat} :
    String.Pos.Raw.IsValid text ⟨offset⟩ ↔
      ∃ before after, text.toList = before ++ after ∧ byteSize before = offset := by
  rw [String.Pos.Raw.isValid_iff_exists_append]
  constructor
  · rintro ⟨before, after, rfl, position⟩
    refine ⟨before.toList, after.toList, String.toList_append, ?_⟩
    rw [byteSize_toList]
    exact (congrArg String.Pos.Raw.byteIdx position).symm
  · rintro ⟨before, after, split, rfl⟩
    refine ⟨String.ofList before, String.ofList after, ?_, ?_⟩
    · rw [← String.ofList_append, ← split, String.ofList_toList]
    · rw [byteSize_eq_utf8ByteSize]
      rfl

/-! ### Locations of characters -/

/-- A location names a character of the pieces of a text, and the character starts at the offset. -/
structure Location.At (pieces : List (List Char)) (offset : Nat) (location : Location) : Prop where
  positive : 0 < location.line
  piece : pieces[location.line - 1]? = some location.text.toList
  column : location.column < location.text.toList.length
  bytes : byteSize (pieces.take (location.line - 1)).flatten +
    byteSize (location.text.toList.take location.column) = offset

variable {text : String} {pieces : List (List Char)} {offset later : Nat}
  {location location' : Location}

/-- An offset before the end, between two characters, has the location of the character behind
it. -/
theorem locate?_eq_some_of_lt (valid : String.Pos.Raw.IsValid text ⟨offset⟩)
    (inside : offset < text.utf8ByteSize) :
    ∃ location, locate? text offset = some location ∧
      location.At (lines text.toList) offset := by
  obtain ⟨before, after, split, rfl⟩ := isValid_iff.1 valid
  cases after with
  | nil =>
    rw [← byteSize_toList, split, List.append_nil] at inside
    exact absurd inside (Nat.lt_irrefl _)
  | cons c after =>
    obtain ⟨earlier, left, right, later, pieces, rfl⟩ := lines_append_cons before c after
    refine ⟨⟨1 + earlier.length, String.ofList (left ++ c :: right), left.length⟩, ?_, ?_⟩
    · rw [locate?, split, pieces]
      exact locateIn?_append_cons 1 earlier left c right later
    · rw [split, pieces]
      constructor
      · exact Nat.add_pos_left Nat.one_pos _
      · simp
      · simp
      · simp [byteSize_append]

/-- The bytes of a character's line, and of the lines before it, end behind the character. -/
theorem Location.At.lt_take (h : location.At pieces offset) :
    offset < byteSize (pieces.take location.line).flatten := by
  have line : pieces.take location.line =
      pieces.take (location.line - 1) ++ [location.text.toList] := by
    rw [← Nat.sub_add_cancel h.positive, List.take_add_one, h.piece]
    rfl
  have column := byteSize_take_lt h.column
  rw [line, List.flatten_append, byteSize_append, List.flatten_singleton, ← h.bytes]
  omega

/-- The locations of characters are in the order of the characters: by lines, then by columns. -/
theorem Location.At.before (h : location.At pieces offset) (h' : location'.At pieces later)
    (order : offset < later) :
    location.line < location'.line ∨
      location.line = location'.line ∧ location.column < location'.column := by
  rcases Nat.lt_trichotomy location.line location'.line with lt | eq | gt
  · exact .inl lt
  · refine .inr ⟨eq, Nat.lt_of_not_le fun le => ?_⟩
    have text : location'.text.toList = location.text.toList := by
      rw [← Option.some.injEq, ← h.piece, ← h'.piece, eq]
    have columns := byteSize_take_mono le location.text.toList
    have bytes := h.bytes
    have bytes' := h'.bytes
    rw [text, ← eq] at bytes'
    omega
  · obtain ⟨between, split⟩ : pieces.take location'.line <+: pieces.take (location.line - 1) :=
      List.take_prefix_take_left (Nat.le_sub_one_of_lt gt)
    have behind := h'.lt_take
    have bytes := h.bytes
    rw [← split, List.flatten_append, byteSize_append] at bytes
    omega

/-! ### The end of a text -/

/-- The column of the end of a line counts its characters before the newline. -/
theorem endColumn_eq {line : List Char} (h : '\n' ∉ line.dropLast) :
    endColumn line = (line.takeWhile (· ≠ '\n')).length := by
  rcases List.eq_nil_or_concat line with rfl | ⟨stem, c, rfl⟩
  · rfl
  · rw [List.concat_eq_append, List.dropLast_concat] at h
    rw [List.concat_eq_append]
    have stays : ∀ d ∈ stem, decide (d ≠ '\n') = true := by
      intro d mem
      exact decide_eq_true fun eq => h (eq ▸ mem)
    rw [endColumn, List.filter_append, List.filter_eq_self.2 stays,
      List.takeWhile_append_of_pos stays, List.length_append, List.length_append]
    by_cases isNewline : c = '\n' <;> simp [isNewline]

/-! ### Every offset -/

/-- An offset that has a location is not beyond the end, nor inside a character. -/
theorem isValid_of_locate? (h : locate? text offset = some location) :
    offset ≤ text.utf8ByteSize ∧ String.Pos.Raw.IsValid text ⟨offset⟩ := by
  obtain ⟨before, after, split, rfl⟩ := eq_append_of_locateIn? h
  rw [flatten_lines] at split
  refine ⟨?_, isValid_iff.2 ⟨before, after, split, rfl⟩⟩
  rw [← byteSize_toList, split, byteSize_append]
  exact Nat.le_add_right _ _

theorem locate?_eq_none_iff :
    locate? text offset = none ↔
      text.utf8ByteSize < offset ∨
        offset < text.utf8ByteSize ∧ ¬ String.Pos.Raw.IsValid text ⟨offset⟩ := by
  constructor
  · intro nowhere
    rcases Nat.lt_trichotomy offset text.utf8ByteSize with inside | rfl | beyond
    · refine .inr ⟨inside, fun valid => ?_⟩
      obtain ⟨location, found, -⟩ := locate?_eq_some_of_lt valid inside
      rw [nowhere] at found
      cases found
    · obtain ⟨number, line, -, found⟩ := locate?_end text
      rw [byteSize_toList, nowhere] at found
      cases found
    · exact .inl beyond
  · intro outside
    rw [Option.eq_none_iff_forall_ne_some]
    intro location found
    obtain ⟨le, valid⟩ := isValid_of_locate? found
    rcases outside with beyond | ⟨_, notValid⟩
    · exact absurd le (Nat.not_le_of_lt beyond)
    · exact notValid valid

/-- The location of an offset before the end names the character that starts there. -/
theorem Location.At.of_locate? (h : locate? text offset = some location)
    (inside : offset < text.utf8ByteSize) : location.At (lines text.toList) offset := by
  obtain ⟨location', h', names⟩ := locate?_eq_some_of_lt (isValid_of_locate? h).2 inside
  rw [h, Option.some.injEq] at h'
  rwa [h']

/-- The end of a text stands on its last line, before the newline that may end it. -/
theorem locate?_append_end {earlier : List (List Char)} {last : List Char}
    (split : lines text.toList = earlier ++ [last]) :
    locate? text text.utf8ByteSize =
      some ⟨earlier.length + 1, String.ofList last, (last.takeWhile (· ≠ '\n')).length⟩ := by
  have mem : last ∈ lines text.toList := by
    rw [split]
    exact List.mem_append_right _ List.mem_cons_self
  rw [← endColumn_eq (newline_not_mem_dropLast mem), Nat.add_comm, locate?, split,
    ← byteSize_toList, ← flatten_lines text.toList, split]
  exact locateIn?_append_end 1 earlier last

/-- **Where an offset of a text stands.** An offset has no location if it is beyond the end or
inside a character. Each other offset before the end has the number of its line, the line, and a
column in it that together name the character that starts there; so later offsets have later
locations. The end of a text stands on its last line, before the newline that may end it. -/
theorem location_of_offset (text : String) :
    (∀ pieces, AreLines text.toList pieces ↔ pieces = lines text.toList) ∧
    (∀ offset, locate? text offset = none ↔
      text.utf8ByteSize < offset ∨
        offset < text.utf8ByteSize ∧ ¬ String.Pos.Raw.IsValid text ⟨offset⟩) ∧
    (∀ offset, offset < text.utf8ByteSize → String.Pos.Raw.IsValid text ⟨offset⟩ →
      ∃ location, locate? text offset = some location ∧
        location.At (lines text.toList) offset) ∧
    (∀ offset later location location', offset < later → later < text.utf8ByteSize →
      locate? text offset = some location → locate? text later = some location' →
      location.line < location'.line ∨
        location.line = location'.line ∧ location.column < location'.column) ∧
    (∀ earlier last, lines text.toList = earlier ++ [last] →
      locate? text text.utf8ByteSize =
        some ⟨earlier.length + 1, String.ofList last, (last.takeWhile (· ≠ '\n')).length⟩) ∧
    (text = "" → locate? text text.utf8ByteSize = some ⟨1, "", 0⟩) := by
  refine ⟨fun pieces => areLines_iff, fun offset => locate?_eq_none_iff, ?_, ?_, ?_, ?_⟩
  · intro offset inside valid
    exact locate?_eq_some_of_lt valid inside
  · intro offset later location location' order inside h h'
    have first := Location.At.of_locate? h (Nat.lt_trans order inside)
    exact first.before (.of_locate? h' inside) order
  · intro earlier last split
    exact locate?_append_end split
  · rintro rfl
    rfl

/-- In a text of three lines, the second of them empty: the second byte of the first character is
inside a character, the last character has a location, and the end stands behind it. -/
theorem location_of_offset_threeLines :
    ¬ String.Pos.Raw.IsValid "é\n\n1" ⟨1⟩ ∧
      (∃ location, locate? "é\n\n1" 4 = some location ∧
        location.At (lines "é\n\n1".toList) 4) ∧
      locate? "é\n\n1" 5 = some ⟨3, "1", 1⟩ := by
  obtain ⟨-, nowhere, somewhere, -, atEnd, -⟩ := location_of_offset "é\n\n1"
  have inside : String.Pos.Raw.IsValid "é\n\n1" ⟨4⟩ :=
    isValid_iff.2 ⟨['é', '\n', '\n'], ['1'], rfl, rfl⟩
  refine ⟨?_, somewhere 4 (by decide) inside, atEnd [['é', '\n'], ['\n']] ['1'] (by decide)⟩
  rcases (nowhere 1).1 (by decide) with beyond | ⟨-, notValid⟩
  · exact absurd beyond (by decide)
  · exact notValid

end ExprCheck.Text
