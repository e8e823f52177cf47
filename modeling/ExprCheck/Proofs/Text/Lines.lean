import ExprCheck.Text.Lines
import Mathlib.Data.List.Basic

/-!
# Where a character of a text stands

* `byteSize_toList`: the bytes of a text are those of its string.
* `lines_append_cons`: the line of a character, with what stands before the character on its line.
* `columnAt?_append`: the column of a byte offset between characters.
* `locate?_append_cons`: every character of a text is found, on its line and at its column.
* `locateIn?_append_end`, `locate?_end`: the end of a text is found on its last line.
* `newline_not_mem_dropLast`: no line contains a newline before its end.
-/

namespace ExprCheck.Text

theorem byteSize_eq_utf8ByteSize (text : List Char) :
    byteSize text = (String.ofList text).utf8ByteSize := by
  induction text with
  | nil => rfl
  | cons c rest ih =>
    rw [byteSize, ih]
    simp

theorem byteSize_toList (source : String) : byteSize source.toList = source.utf8ByteSize := by
  rw [byteSize_eq_utf8ByteSize, String.ofList_toList]

theorem byteSize_pos (c : Char) (rest : List Char) : 0 < byteSize (c :: rest) :=
  Nat.add_pos_left c.utf8Size_pos _

/-- The line of a character starts with what stands between the last newline and the character. -/
theorem lines_append_cons (before : List Char) (c : Char) (after : List Char) :
    ∃ earlier left right later,
      lines (before ++ c :: after) = earlier ++ (left ++ c :: right) :: later ∧
        earlier.flatten ++ left = before := by
  induction before with
  | nil =>
    rw [List.nil_append]
    by_cases isNewline : c = '\n'
    · exact ⟨[], [], [], lines after, by rw [lines, if_pos isNewline]; rfl, rfl⟩
    · cases behind : lines after with
      | nil => exact ⟨[], [], [], [], by rw [lines, if_neg isNewline, behind]; rfl, rfl⟩
      | cons line later =>
        exact ⟨[], [], line, later, by rw [lines, if_neg isNewline, behind]; rfl, rfl⟩
  | cons b before ih =>
    obtain ⟨earlier, left, right, later, split, rfl⟩ := ih
    rw [List.cons_append, lines, split]
    by_cases isNewline : b = '\n'
    · exact ⟨[b] :: earlier, left, right, later, by rw [if_pos isNewline]; rfl, rfl⟩
    · cases earlier with
      | nil => exact ⟨[], b :: left, right, later, by rw [if_neg isNewline]; rfl, rfl⟩
      | cons line earlier =>
        exact ⟨(b :: line) :: earlier, left, right, later, by rw [if_neg isNewline]; rfl, rfl⟩

/-- No line contains a newline before its end. -/
theorem newline_not_mem_dropLast {text line : List Char} (h : line ∈ lines text) :
    '\n' ∉ line.dropLast := by
  induction text generalizing line with
  | nil => exact absurd h List.not_mem_nil
  | cons c rest ih =>
    rw [lines] at h
    split at h
    · rcases List.mem_cons.1 h with rfl | h
      · exact List.not_mem_nil
      · exact ih h
    · next isNewline =>
      split at h
      · rw [List.mem_singleton.1 h]
        exact List.not_mem_nil
      · next first later split =>
        rcases List.mem_cons.1 h with rfl | h
        · cases first with
          | nil => exact List.not_mem_nil
          | cons d first =>
            rw [List.dropLast_cons_of_ne_nil (List.cons_ne_nil _ _)]
            refine List.not_mem_cons_of_ne_of_not_mem (Ne.symm isNewline) (ih ?_)
            rw [split]
            exact List.mem_cons_self
        · refine ih ?_
          rw [split]
          exact List.mem_cons_of_mem _ h

/-- Between two characters of a text, the column is the number of characters before. -/
theorem columnAt?_append (before after : List Char) :
    columnAt? (before ++ after) (byteSize before) = some before.length := by
  induction before with
  | nil => rw [byteSize, columnAt?]; rfl
  | cons c before ih =>
    have size : byteSize (c :: before) = c.utf8Size + byteSize before := rfl
    obtain ⟨fewer, eq⟩ : ∃ fewer, byteSize (c :: before) = fewer + 1 :=
      ⟨byteSize (c :: before) - 1, (Nat.sub_add_cancel (byteSize_pos c before)).symm⟩
    rw [eq, List.cons_append, columnAt?, if_neg (by omega),
      show fewer + 1 - c.utf8Size = byteSize before by omega, ih]
    rfl

theorem locateIn?_append_cons (number : Nat) (earlier : List (List Char)) (left : List Char)
    (c : Char) (right : List Char) (later : List (List Char)) :
    locateIn? number (earlier ++ (left ++ c :: right) :: later)
        (byteSize (earlier.flatten ++ left)) =
      some ⟨number + earlier.length, String.ofList (left ++ c :: right), left.length⟩ := by
  induction earlier generalizing number with
  | nil =>
    have inside : byteSize left < byteSize (left ++ c :: right) := by
      have := byteSize_pos c right
      rw [byteSize_append]
      omega
    rw [List.flatten_nil, List.nil_append, List.nil_append]
    cases later <;> rw [locateIn?, if_pos inside, columnAt?_append] <;> rfl
  | cons line earlier ih =>
    have size : byteSize ((line :: earlier).flatten ++ left) =
        byteSize line + byteSize (earlier.flatten ++ left) := by
      rw [List.flatten_cons, List.append_assoc, byteSize_append]
    obtain ⟨next, later', eq⟩ : ∃ next later',
        earlier ++ (left ++ c :: right) :: later = next :: later' := by
      cases earlier <;> exact ⟨_, _, rfl⟩
    rw [size, List.cons_append, eq, locateIn?, if_neg (by omega), Nat.add_sub_cancel_left, ← eq, ih,
      List.length_cons, Nat.add_right_comm, Nat.add_assoc]

/-- Every character of a text is found, on its line and at its column. -/
theorem locate?_append_cons {text : String} {before after : List Char} {c : Char}
    (h : text.toList = before ++ c :: after) :
    ∃ number left right, left ++ c :: right ∈ lines text.toList ∧
      locate? text (byteSize before) =
        some ⟨number, String.ofList (left ++ c :: right), left.length⟩ := by
  obtain ⟨earlier, left, right, later, split, rfl⟩ := lines_append_cons before c after
  refine ⟨1 + earlier.length, left, right, ?_, ?_⟩
  · rw [h, split]
    exact List.mem_append_right _ List.mem_cons_self
  · rw [locate?, h, split]
    exact locateIn?_append_cons 1 earlier left c right later

theorem locateIn?_append_end (number : Nat) (earlier : List (List Char)) (last : List Char) :
    locateIn? number (earlier ++ [last]) (byteSize (earlier ++ [last]).flatten) =
      some ⟨number + earlier.length, String.ofList last, endColumn last⟩ := by
  induction earlier generalizing number with
  | nil =>
    rw [List.nil_append, List.flatten_singleton, locateIn?, if_neg (Nat.lt_irrefl _), if_pos rfl]
    rfl
  | cons line earlier ih =>
    obtain ⟨next, later, eq⟩ : ∃ next later, earlier ++ [last] = next :: later := by
      cases earlier <;> exact ⟨_, _, rfl⟩
    rw [List.cons_append, List.flatten_cons, byteSize_append, eq, locateIn?, if_neg (by omega),
      Nat.add_sub_cancel_left, ← eq, ih, List.length_cons, Nat.add_right_comm, Nat.add_assoc]

theorem locateIn?_end (number : Nat) (all : List (List Char)) :
    ∃ number' line, (line ∈ all ∨ line = []) ∧
      locateIn? number all (byteSize all.flatten) =
        some ⟨number', String.ofList line, endColumn line⟩ := by
  rcases List.eq_nil_or_concat all with rfl | ⟨earlier, last, rfl⟩
  · exact ⟨number, [], .inr rfl, rfl⟩
  · rw [List.concat_eq_append]
    exact ⟨_, last, .inl (List.mem_append_right _ List.mem_cons_self),
      locateIn?_append_end number earlier last⟩

/-- The end of a text is found on its last line. -/
theorem locate?_end (text : String) :
    ∃ number line, (line ∈ lines text.toList ∨ line = []) ∧
      locate? text (byteSize text.toList) =
        some ⟨number, String.ofList line, endColumn line⟩ := by
  have found := locateIn?_end 1 (lines text.toList)
  rwa [flatten_lines] at found

end ExprCheck.Text
