import ExprCheck.Token.Source
import Mathlib.Data.List.TakeWhile

/-!
# The tokens of a source

A source is used only through the sequence of its tokens up to the end of the input:

* `TokenSource.tokens_of_eof`, `TokenSource.tokens_of_ne_eof`: at the end this is the end-of-input
  token alone, and before it the current token and the sequence of the source after it.
* `TokenSource.length_tokens_le`: `remaining` bounds the tokens after the current one.
* `TokenSource.tokens_ends`: the last token of the sequence is the only one that ends the input.
* `TokenStream.tokens_ofTokens`, `TokenStream.tokens_ofTokens_of_ne_eof`: a stream over tokens gives
  these tokens back, closed by an end of input, if none of them but the last ends the input.
* `TokenStream.tokens_ofTokens_tokens`: a stream over the tokens of a source has the same tokens.
-/

namespace ExprCheck

namespace TokenSource

variable {σ : Type} [TokenSource σ]

theorem tokensWithin_of_eof {source : σ} (h : (current source).kind = .eof) (limit : Nat) :
    tokensWithin limit source = [current source] := by
  cases limit with
  | zero => rfl
  | succ limit => rw [tokensWithin, if_pos h]

/-- Two limits that do not cut the sequence off give the same tokens. -/
theorem tokensWithin_eq {source : σ} {limit limit' : Nat} (h : remaining source ≤ limit)
    (h' : remaining source ≤ limit') : tokensWithin limit source = tokensWithin limit' source := by
  by_cases atEnd : (current source).kind = .eof
  · rw [tokensWithin_of_eof atEnd, tokensWithin_of_eof atEnd]
  · have shorter := remaining_advance_lt source atEnd
    induction limit generalizing source limit' with
    | zero => omega
    | succ limit ih =>
      obtain ⟨bound, rfl⟩ : ∃ bound, limit' = bound + 1 := ⟨limit' - 1, by omega⟩
      rw [tokensWithin, tokensWithin, if_neg atEnd, if_neg atEnd]
      congr 1
      by_cases nextAtEnd : (current (advance source)).kind = .eof
      · rw [tokensWithin_of_eof nextAtEnd, tokensWithin_of_eof nextAtEnd]
      · exact ih (by omega) (by omega) nextAtEnd (remaining_advance_lt _ nextAtEnd)

theorem tokens_of_eof {source : σ} (h : (current source).kind = .eof) :
    tokens source = [current source] :=
  tokensWithin_of_eof h _

theorem tokens_of_ne_eof {source : σ} (h : (current source).kind ≠ .eof) :
    tokens source = current source :: tokens (advance source) := by
  have shorter := remaining_advance_lt source h
  obtain ⟨bound, eq⟩ : ∃ bound, remaining source = bound + 1 := ⟨remaining source - 1, by omega⟩
  rw [tokens, eq, tokensWithin, if_neg h]
  exact congrArg _ (tokensWithin_eq (by omega) (Nat.le_refl _))

/-- The sequence starts with the current token. -/
theorem tokens_eq_cons (source : σ) : ∃ later, tokens source = current source :: later := by
  by_cases h : (current source).kind = .eof
  · exact ⟨[], tokens_of_eof h⟩
  · exact ⟨_, tokens_of_ne_eof h⟩

theorem current_of_tokens {source : σ} {first : Token} {later : List Token}
    (h : tokens source = first :: later) : current source = first := by
  obtain ⟨later', eq⟩ := tokens_eq_cons source
  rw [eq] at h
  exact (List.cons.inj h).1

/-- Only the last of the tokens ends the input. -/
theorem tokens_advance {source : σ} {first : Token} {later : List Token}
    (h : tokens source = first :: later) (notEnd : first.kind ≠ .eof) :
    tokens (advance source) = later := by
  obtain rfl := current_of_tokens h
  rw [tokens_of_ne_eof notEnd] at h
  exact (List.cons.inj h).2

/-- Of the tokens of a source, the last one ends the input and no other does. -/
theorem tokens_ends (source : σ) :
    ∃ front last, tokens source = front ++ [last] ∧ (∀ token ∈ front, token.kind ≠ .eof) ∧
      last.kind = .eof := by
  induction bound : remaining source using Nat.strongRecOn generalizing source with
  | ind length ih =>
    by_cases atEnd : (current source).kind = .eof
    · exact ⟨[], current source, tokens_of_eof atEnd, by simp, atEnd⟩
    · have shorter := remaining_advance_lt source atEnd
      obtain ⟨front, last, eq, before, isEnd⟩ := ih _ (bound ▸ shorter) (advance source) rfl
      refine ⟨current source :: front, last, ?_, ?_, isEnd⟩
      · rw [tokens_of_ne_eof atEnd, eq, List.cons_append]
      · intro token mem
        rcases List.mem_cons.1 mem with rfl | mem
        · exact atEnd
        · exact before token mem

/-- A token that another one follows does not end the input. -/
theorem ne_eof_of_tokens {source : σ} {front later : List Token} {token : Token}
    (eq : tokens source = front ++ token :: later) : ∀ earlier ∈ front, earlier.kind ≠ .eof := by
  obtain ⟨front', last, eq', before, -⟩ := tokens_ends source
  have whole : front' ++ [last] = front ++ token :: later := eq'.symm.trans eq
  have shorter := congrArg List.length whole
  simp only [List.length_append, List.length_cons, List.length_nil] at shorter
  have isPrefix : front <+: front' :=
    List.prefix_of_prefix_length_le ⟨token :: later, rfl⟩ ⟨[last], whole⟩ (by omega)
  exact fun earlier mem => before earlier (isPrefix.subset mem)

/-- The token that no other follows ends the input. -/
theorem kind_eq_eof_of_tokens {source : σ} {front : List Token} {last : Token}
    (eq : tokens source = front ++ [last]) : last.kind = .eof := by
  obtain ⟨front', last', eq', -, isEnd⟩ := tokens_ends source
  obtain ⟨-, same⟩ := List.append_inj' (eq.symm.trans eq') rfl
  rwa [(List.cons.inj same).1]

theorem length_tokensWithin_le (limit : Nat) (source : σ) :
    (tokensWithin limit source).length ≤ limit + 1 := by
  induction limit generalizing source with
  | zero => exact Nat.le_refl 1
  | succ limit ih =>
    rw [tokensWithin]
    split
    · exact Nat.le_add_left 1 (limit + 1)
    · exact Nat.succ_le_succ (ih _)

theorem length_tokens_le (source : σ) : (tokens source).length ≤ remaining source + 1 :=
  length_tokensWithin_le _ _

end TokenSource

namespace TokenStream

open TokenSource (tokens_of_eof tokens_of_ne_eof)

/-- A stream in which nothing but the last token ends the input has all its tokens before the
end. -/
theorem tokens_eq (stream : TokenStream)
    (h : ∀ token ∈ stream.tokens.dropLast, token.kind ≠ .eof) :
    TokenSource.tokens stream = stream.tokens := by
  obtain ⟨tokens, ends⟩ := stream
  induction tokens with
  | nil => simp at ends
  | cons first later ih =>
    cases later with
    | nil => exact tokens_of_eof (Option.some.inj ends)
    | cons next later =>
      rw [tokens_of_ne_eof (h first (by simp))]
      rw [List.getLast?_cons_cons] at ends
      exact congrArg _ (ih ends fun token mem => h token (by simp [mem]))

/-- Before the end, the first token is passed. -/
theorem rest_of_ne_eof {first : Token} {later : List Token} (notEnd : first.kind ≠ .eof)
    (ends : (first :: later).getLast?.map Token.kind = some .eof) :
    rest (first :: later) = later := by
  cases later with
  | nil => exact absurd (Option.some.inj ends) notEnd
  | cons next later => rfl

/-- A stream starts with the tokens that it was given, up to the first that ends the input. -/
theorem tokens_of_append {front more : List Token} (before : ∀ token ∈ front, token.kind ≠ .eof)
    {stream : TokenStream} (eq : stream.tokens = front ++ more) :
    ∃ later : TokenStream, later.tokens = more ∧
      TokenSource.tokens stream = front ++ TokenSource.tokens later := by
  induction front generalizing stream with
  | nil => exact ⟨stream, eq, rfl⟩
  | cons first front ih =>
    obtain ⟨notEnd, before⟩ := List.forall_mem_cons.1 before
    obtain ⟨tokens, ends⟩ := stream
    obtain rfl : tokens = first :: (front ++ more) := eq
    obtain ⟨later, rest, read⟩ := ih before
      (show (advance ⟨first :: (front ++ more), ends⟩).tokens = _ from rest_of_ne_eof notEnd ends)
    exact ⟨later, rest, (tokens_of_ne_eof notEnd).trans (congrArg (first :: ·) read)⟩

/-- Closing tokens adds to their end alone. -/
theorem exists_closed_append (front more : List Token) :
    ∃ added, closed (front ++ more) = front ++ (more ++ added) := by
  unfold closed
  split
  · exact ⟨[], by rw [List.append_nil]⟩
  · exact ⟨_, List.append_assoc ..⟩

theorem tokens_ofTokens_append {front : List Token}
    (before : ∀ token ∈ front, token.kind ≠ .eof) (more : List Token) :
    ∃ rest, TokenSource.tokens (ofTokens (front ++ more)) = front ++ rest := by
  obtain ⟨added, eq⟩ := exists_closed_append front more
  obtain ⟨later, -, read⟩ := tokens_of_append before (show (ofTokens _).tokens = _ from eq)
  exact ⟨_, read⟩

/-- What stands behind the first token that ends the input is not among the tokens. -/
theorem tokens_ofTokens_of_eof {front : List Token} {last : Token}
    (before : ∀ token ∈ front, token.kind ≠ .eof) (isEnd : last.kind = .eof) (more : List Token) :
    TokenSource.tokens (ofTokens (front ++ last :: more)) = front ++ [last] := by
  obtain ⟨added, eq⟩ := exists_closed_append front (last :: more)
  obtain ⟨⟨_, ends⟩, rfl, read⟩ := tokens_of_append before (show (ofTokens _).tokens = _ from eq)
  exact read.trans (congrArg (front ++ ·) (tokens_of_eof isEnd))

/-- The tokens of a list before its end of input, which is its last token or none. -/
def body (tokens : List Token) : List Token :=
  tokens.takeWhile fun token => token.kind ≠ .eof

theorem body_of_ne_eof {tokens : List Token} (h : ∀ token ∈ tokens, token.kind ≠ .eof) :
    body tokens = tokens := by
  rw [body, List.takeWhile_eq_self_iff]
  simpa using h

/-- Closing tokens of which only the last may end the input puts one end of input after those
before it. -/
theorem closed_eq {tokens : List Token} (h : ∀ token ∈ tokens.dropLast, token.kind ≠ .eof) :
    ∃ last : Token, last.kind = .eof ∧ closed tokens = body tokens ++ [last] := by
  unfold closed
  split
  · next ends =>
    obtain ⟨last, found, isEnd⟩ := Option.map_eq_some_iff.1 ends
    obtain ⟨front, rfl⟩ := List.getLast?_eq_some_iff.1 found
    rw [List.dropLast_concat] at h
    refine ⟨last, isEnd, ?_⟩
    rw [body, List.takeWhile_append_of_pos (by simpa using h)]
    simp [isEnd]
  · next ends =>
    refine ⟨_, Token.endOfInput_kind (endPosition tokens), ?_⟩
    rw [body_of_ne_eof]
    intro token mem isEnd
    rcases List.eq_nil_or_concat tokens with rfl | ⟨front, last, rfl⟩
    · exact List.not_mem_nil mem
    · rw [List.concat_eq_append] at h ends mem
      rw [List.dropLast_concat] at h
      rw [List.getLast?_concat, Option.map_some, Option.some.injEq] at ends
      rcases List.mem_append.1 mem with mem | mem
      · exact h token mem isEnd
      · rw [List.mem_singleton.1 mem] at isEnd
        exact ends isEnd

/-- A stream over tokens of which only the last may end the input gives all of them, closed by an
end of input. -/
theorem tokens_ofTokens_eq_closed {tokens : List Token}
    (h : ∀ token ∈ tokens.dropLast, token.kind ≠ .eof) :
    TokenSource.tokens (ofTokens tokens) = closed tokens := by
  obtain ⟨last, isEnd, eq⟩ := closed_eq h
  refine tokens_eq (ofTokens tokens) ?_
  show ∀ token ∈ (closed tokens).dropLast, token.kind ≠ .eof
  rw [eq, List.dropLast_concat]
  intro token mem
  simpa using List.mem_takeWhile_imp mem

/-- The tokens of a stream are those that it was made of, with one end of input after them. -/
theorem tokens_ofTokens {tokens : List Token} (h : ∀ token ∈ tokens.dropLast, token.kind ≠ .eof) :
    ∃ last : Token, last.kind = .eof ∧
      TokenSource.tokens (ofTokens tokens) = body tokens ++ [last] := by
  rw [tokens_ofTokens_eq_closed h]
  exact closed_eq h

/-- A stream over tokens before the end of the input gives them, and the end that closes them. -/
theorem tokens_ofTokens_of_ne_eof {tokens : List Token} (h : ∀ token ∈ tokens, token.kind ≠ .eof) :
    TokenSource.tokens (ofTokens tokens) = tokens ++ [Token.endOfInput (endPosition tokens)] := by
  rw [tokens_ofTokens_eq_closed fun token mem => h token ((List.dropLast_sublist _).subset mem)]
  refine if_neg fun ends => ?_
  obtain ⟨last, found, isEnd⟩ := Option.map_eq_some_iff.1 ends
  exact h last (List.mem_of_getLast? found) isEnd

/-- What stands before some tokens does not move their end. -/
theorem endPosition_append_cons (tokens : List Token) (next : Token) (more : List Token) :
    endPosition (tokens ++ next :: more) = endPosition (next :: more) := by
  rw [endPosition, endPosition, List.getLast?_append, List.getLast?_cons, Option.some_or]

/-- The end of input that closes some tokens is none of those chosen for being another kind. -/
theorem filter_closed (tokens : List Token) {chosen : Token → Bool}
    (notEnd : ∀ token, token.kind = .eof → chosen token = false) :
    (closed tokens).filter chosen = tokens.filter chosen := by
  unfold closed
  split
  · rfl
  · have notChosen := notEnd _ (Token.endOfInput_kind (endPosition tokens))
    simp [notChosen]

/-- A stream over the tokens of a source has the same tokens as the source. -/
theorem tokens_ofTokens_tokens {σ : Type} [TokenSource σ] (source : σ) :
    TokenSource.tokens (ofTokens (TokenSource.tokens source)) = TokenSource.tokens source := by
  obtain ⟨front, last, eq, before, isEnd⟩ := TokenSource.tokens_ends source
  have isClosed : closed (TokenSource.tokens source) = TokenSource.tokens source := by
    refine if_pos ?_
    rw [eq, List.getLast?_concat, Option.map_some, isEnd]
  have all : TokenSource.tokens (ofTokens (TokenSource.tokens source)) =
      closed (TokenSource.tokens source) := by
    refine tokens_eq _ ?_
    show ∀ token ∈ (closed (TokenSource.tokens source)).dropLast, token.kind ≠ .eof
    rw [isClosed, eq, List.dropLast_concat]
    exact before
  rw [all, isClosed]

end TokenStream

end ExprCheck
