import ExprCheck.Proofs.Token.Tiling

/-!
# Other layout between the same tokens

* `RespacedAfter`, `Respaced`: a text with other layout before, between and behind its tokens. Two
  tokens with layout between them are kept apart.
* `RespacedAfter.endsAlike`, `RespacedAfter.mem_iff`: behind other layout every lexeme ends alike,
  and there are the same marks.
* `RespacedAfter.next_eq`: so what is read is the same, and an unclosed mark stays unclosed.
* `Respaced.tokens`: a text and the same text with other layout have the same tokens, up to their
  places and the unknown ones included.
-/

namespace ExprCheck

open Lexeme (Breaks EndsAlike continues)

/-- A text that starts with a token, and the same tokens with other layout behind each of them.
Between two tokens there may be layout where there was none, but not the other way round. -/
inductive RespacedAfter : List Char → List Char → Prop where
  | done : RespacedAfter [] []
  | token {c rest gap gap' more more'} :
      ¬ Cursor.isLayout c → c :: rest = (Lexeme.next c rest).text ++ (gap ++ more) →
      (∀ d ∈ gap, Cursor.isLayout d) → (∀ d ∈ gap', Cursor.isLayout d) →
      (more ≠ [] → gap ≠ [] → gap' ≠ []) → RespacedAfter more more' →
      RespacedAfter (c :: rest) ((Lexeme.next c rest).text ++ (gap' ++ more'))

/-- The same tokens with other layout before, between and behind them. -/
inductive Respaced : List Char → List Char → Prop where
  | text {gap gap' more more'} :
      (∀ d ∈ gap, Cursor.isLayout d) → (∀ d ∈ gap', Cursor.isLayout d) →
      RespacedAfter more more' → Respaced (gap ++ more) (gap' ++ more')

namespace RespacedAfter

variable {gap gap' more more' : List Char}

/-- The two texts start with the same character, if with any. -/
theorem head?_eq (h : RespacedAfter more more') : more'.head? = more.head? := by
  cases h with
  | done => rfl
  | @token c rest =>
    obtain ⟨text, _, eq, -⟩ := Lexeme.next_text c rest
    rw [eq]
    rfl

/-- The two texts hold the same characters, but for layout. -/
theorem mem_iff (h : RespacedAfter more more') {c : Char} (noLayout : ¬ Cursor.isLayout c) :
    c ∈ more' ↔ c ∈ more := by
  have notIn : ∀ {gap : List Char}, (∀ d ∈ gap, Cursor.isLayout d) → c ∉ gap :=
    fun isLayout mem => noLayout (isLayout c mem)
  induction h with
  | done => rfl
  | token _ split isLayout isLayout' _ _ ih =>
    rw [split]
    simp only [List.mem_append, notIn isLayout, notIn isLayout', false_or, ih]

/-- Every lexeme ends alike before the two texts, each behind its layout. -/
theorem endsAlike (h : RespacedAfter more more') (isLayout' : ∀ d ∈ gap', Cursor.isLayout d)
    (apart : more ≠ [] → gap ≠ [] → gap' ≠ []) : EndsAlike (gap ++ more) (gap' ++ more') := by
  cases gap' with
  | cons d gap' =>
    exact (Lexeme.breaks_of_isLayout (isLayout' d List.mem_cons_self) _).endsAlike _
  | nil =>
    intro c mem _
    rw [List.nil_append, h.head?_eq] at mem
    -- There was no layout here before, as a token follows.
    have notEmpty : more ≠ [] := by
      rintro rfl
      cases mem
    have noGap : gap = [] := by
      by_contra notEmpty'
      exact apart notEmpty notEmpty' rfl
    rwa [noGap]

/-- What is read before the one text is read before the other. -/
theorem next_eq (h : RespacedAfter more more') {c : Char} {rest rest' : List Char}
    (split : c :: rest = (Lexeme.next c rest).text ++ (gap ++ more))
    (split' : c :: rest' = (Lexeme.next c rest).text ++ (gap' ++ more'))
    (isLayout' : ∀ d ∈ gap', Cursor.isLayout d) (apart : more ≠ [] → gap ≠ [] → gap' ≠ []) :
    Lexeme.next c rest' = Lexeme.next c rest := by
  have alike := h.endsAlike isLayout' apart
  unfold Lexeme.next at split split' ⊢
  cases found : Lexeme.first? (c :: rest) with
  | some lexeme =>
    rw [found] at split split'
    rw [split] at found
    rw [split', Lexeme.first?_of_endsAlike found alike]
    rfl
  | none =>
    rw [found] at split split'
    obtain rfl : rest = gap ++ more := (List.cons.inj split).2
    obtain rfl : rest' = gap' ++ more' := (List.cons.inj split').2
    have marks : ∀ mark, Lexeme.IsMark mark → mark ∈ gap' ++ more' → mark ∈ gap ++ more := by
      intro mark isMark mem
      have noLayout : ¬ Cursor.isLayout mark := by
        rcases isMark with rfl | rfl <;> decide
      rcases List.mem_append.1 mem with mem | mem
      · exact absurd (isLayout' mark mem) noLayout
      · exact List.mem_append_right _ ((h.mem_iff noLayout).1 mem)
    rw [Lexeme.first?_eq_none_of_endsAlike found alike marks]

/-- Cursors over the two texts read the same tokens. -/
theorem tokens_ofCursor (h : RespacedAfter more more') {cursor cursor' : Cursor}
    (eq : cursor.rest = more) (eq' : cursor'.rest = more') :
    (TokenSource.tokens (Scanner.ofCursor cursor')).map Token.unplaced =
      (TokenSource.tokens (Scanner.ofCursor cursor)).map Token.unplaced := by
  induction h generalizing cursor cursor' with
  | done =>
    rw [Scanner.tokens_of_next_eof (Cursor.next_of_nil eq) rfl,
      Scanner.tokens_of_next_eof (Cursor.next_of_nil eq') rfl]
    rfl
  | @token c rest gap gap' more more' noLayout split isLayout isLayout' apart h ih =>
    obtain ⟨text, _, textEq, -⟩ := Lexeme.next_text c rest
    have eq'' : cursor'.rest = c :: (text ++ (gap' ++ more')) := by rw [eq', textEq]; rfl
    have same := h.next_eq split (eq''.symm.trans eq') isLayout' apart
    have behind := Scans.rest_pass (eq.trans split)
    have behind' := Scans.rest_pass eq'
    rw [Scanner.tokens_of_not_isLayout eq noLayout, Scanner.tokens_of_not_isLayout eq'' noLayout,
      same, ← Scanner.ofCursor_pass_layout isLayout behind,
      ← Scanner.ofCursor_pass_layout isLayout' behind', List.map_cons, List.map_cons,
      ih (Scans.rest_pass behind) (Scans.rest_pass behind')]
    rfl

end RespacedAfter

/-- A text is layout and a text that starts with none. -/
theorem exists_gap (text : List Char) :
    ∃ gap more, text = gap ++ more ∧ (∀ d ∈ gap, Cursor.isLayout d) ∧
      ∀ d ∈ more.head?, ¬ Cursor.isLayout d := by
  refine ⟨text.takeWhile Cursor.isLayout, text.dropWhile Cursor.isLayout,
    List.takeWhile_append_dropWhile.symm, fun d mem => List.mem_takeWhile_imp mem,
    fun d mem => ?_⟩
  simpa [Option.mem_def.1 mem] using List.head?_dropWhile_not Cursor.isLayout text

/-- Every text that starts with a token goes on with tokens and the layout behind them. -/
theorem RespacedAfter.refl {text : List Char} (starts : ∀ c ∈ text.head?, ¬ Cursor.isLayout c) :
    RespacedAfter text text := by
  induction length : text.length using Nat.strongRecOn generalizing text with
  | ind length ih =>
    cases text with
    | nil => exact .done
    | cons c rest =>
      obtain ⟨text, later, textEq, rfl⟩ := Lexeme.next_text c rest
      obtain ⟨gap, more, rfl, isLayout, behind⟩ := exists_gap later
      have split : c :: (text ++ (gap ++ more)) =
          (Lexeme.next c (text ++ (gap ++ more))).text ++ (gap ++ more) := by
        rw [textEq, List.cons_append]
      simp only [List.length_cons, List.length_append] at length
      have same := RespacedAfter.token (starts c rfl) split isLayout isLayout (fun _ => id)
        (ih more.length (by omega) behind rfl)
      rwa [← split] at same

/-- Every text is cut into layout and tokens in this way. -/
theorem Respaced.refl (text : List Char) : Respaced text text := by
  obtain ⟨gap, more, rfl, isLayout, behind⟩ := exists_gap text
  exact .text isLayout isLayout (.refl behind)

/-- **Layout is no part of the tokens.** A source and the same source with other layout have tokens
of the same kinds and values, unknown ones included. -/
theorem Respaced.tokens {source source' : String} (h : Respaced source.toList source'.toList)
    (file file' : String) :
    (TokenSource.tokens (Scanner.ofSource source' file')).map Token.unplaced =
      (TokenSource.tokens (Scanner.ofSource source file)).map Token.unplaced := by
  generalize text : source.toList = chars at h
  generalize text' : source'.toList = chars' at h
  obtain @⟨gap, gap', more, more', isLayout, isLayout', after⟩ := h
  have start : (Cursor.ofSource source file).rest = gap ++ more := text
  have start' : (Cursor.ofSource source' file').rest = gap' ++ more' := text'
  have same := after.tokens_ofCursor (Scans.rest_pass start) (Scans.rest_pass start')
  rwa [Scanner.ofCursor_pass_layout isLayout start,
    Scanner.ofCursor_pass_layout isLayout' start'] at same

end ExprCheck
