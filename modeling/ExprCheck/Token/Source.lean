import ExprCheck.Token.Basic

/-!
# Sources of tokens

* `TokenSource`: something with a current token that can be advanced. `remaining` bounds the number
  of tokens still to come, and it drops with every step taken before the end of the input.
* `TokenSource.tokens`: all tokens from the current one up to the end of the input.
* `TokenStream`: a source over tokens that are already at hand. It always ends with an
  end-of-input token and stays there.
-/

namespace ExprCheck

/-- A source of tokens with one token of lookahead. -/
class TokenSource (σ : Type) where
  /-- The token that the next `advance` passes. -/
  current : σ → Token
  /-- The source after its current token. -/
  advance : σ → σ
  /-- A bound on the number of tokens that follow the current one. -/
  remaining : σ → Nat
  /-- Advancing never makes the source longer. -/
  remaining_advance_le : ∀ source, remaining (advance source) ≤ remaining source
  /-- Before the end of the input, advancing makes it shorter. -/
  remaining_advance_lt : ∀ source, (current source).kind ≠ .eof →
    remaining (advance source) < remaining source

namespace TokenSource

variable {σ : Type} [TokenSource σ]

/-- The tokens up to the end of the input, or the first `limit` tokens and the one after them. -/
def tokensWithin : Nat → σ → List Token
  | 0, source => [current source]
  | limit + 1, source =>
    if (current source).kind = .eof then [current source]
    else current source :: tokensWithin limit (advance source)

/-- The tokens from the current one up to the end of the input, which is the last of them. -/
def tokens (source : σ) : List Token :=
  tokensWithin (remaining source) source

end TokenSource

/-- Tokens at hand, the current one first. The last of them ends the input. -/
structure TokenStream where
  tokens : List Token
  ends : tokens.getLast?.map Token.kind = some .eof

namespace TokenStream

/-- Where a list of tokens ends: at the end of its last token, or at the beginning of a text
named `shell` if it has none. -/
def endPosition (tokens : List Token) : Position :=
  match tokens.getLast? with
  | some last => last.span.stop
  | none => ⟨0, "shell"⟩

/-- The tokens with an end of input after them, unless they already have one. -/
def closed (tokens : List Token) : List Token :=
  if tokens.getLast?.map Token.kind = some .eof then tokens
  else tokens ++ [Token.endOfInput (endPosition tokens)]

theorem closed_ends (tokens : List Token) :
    (closed tokens).getLast?.map Token.kind = some .eof := by
  unfold closed
  split
  · assumption
  · simp

/-- The stream of the given tokens, closed by an end of input. -/
def ofTokens (tokens : List Token) : TokenStream :=
  ⟨closed tokens, closed_ends tokens⟩

theorem tokens_ne_nil (stream : TokenStream) : stream.tokens ≠ [] := by
  intro h
  have := stream.ends
  simp [h] at this

/-- The first of the tokens. -/
def current (stream : TokenStream) : Token :=
  stream.tokens.head stream.tokens_ne_nil

/-- The tokens after the first. The last token stays for ever. -/
def rest : List Token → List Token
  | _ :: next :: later => next :: later
  | tokens => tokens

theorem getLast?_rest (tokens : List Token) : (rest tokens).getLast? = tokens.getLast? := by
  cases tokens with
  | nil => rfl
  | cons _ later =>
    cases later with
    | nil => rfl
    | cons next later => simp [rest, List.getLast?_cons_cons]

theorem length_rest (tokens : List Token) (h : tokens ≠ []) :
    (rest tokens).length = max 1 (tokens.length - 1) := by
  cases tokens with
  | nil => contradiction
  | cons _ later =>
    cases later with
    | nil => rfl
    | cons next later => simp [rest]

/-- The stream after its current token. -/
def advance (stream : TokenStream) : TokenStream :=
  ⟨rest stream.tokens, by rw [getLast?_rest]; exact stream.ends⟩

theorem one_lt_length_of_kind_ne_eof (stream : TokenStream) (h : stream.current.kind ≠ .eof) :
    1 < stream.tokens.length := by
  obtain ⟨tokens, ends⟩ := stream
  cases tokens with
  | nil => simp at ends
  | cons first later =>
    cases later with
    | nil => exact absurd (Option.some.inj ends) h
    | cons next later => simp

instance : TokenSource TokenStream where
  current := current
  advance := advance
  remaining stream := stream.tokens.length - 1
  remaining_advance_le stream := by
    have := length_rest stream.tokens stream.tokens_ne_nil
    simp only [advance]
    omega
  remaining_advance_lt stream h := by
    have := length_rest stream.tokens stream.tokens_ne_nil
    have := one_lt_length_of_kind_ne_eof stream h
    simp only [advance]
    omega

end TokenStream

end ExprCheck
