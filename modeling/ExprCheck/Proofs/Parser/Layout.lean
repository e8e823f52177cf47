import ExprCheck.Proofs.Diagnostic.Caret
import ExprCheck.Proofs.Parser.Correspondence
import ExprCheck.Proofs.Token.Layout

/-!
# Layout is insignificant

* `SameToken`: positions at which tokens with the same number start, in two lists of tokens.
* `AgreeAt`: two successes with values that agree, or two failures with the same fault at the same
  token.
* `Expr.CheckAlike`: trees that are the same up to their places, and of which the checker says the
  same.
* `Correspondence.ofTokens`: the places of two lists of tokens that correspond, number by number.
* `layout_insignificant`: a source and the same source with other layout scan to the same tokens,
  are read alike and are checked alike.
-/

namespace ExprCheck

variable {α β : Type}

/-- The token with some number starts at the one position in the one list and at the other position
in the other list. No other token starts there. -/
def SameToken (tokens tokens' : List Token) (position position' : Position) : Prop :=
  ∃ i : Nat, (∀ j : Nat, (tokens.map Token.start)[j]? = some position ↔ j = i) ∧
    ∀ j : Nat, (tokens'.map Token.start)[j]? = some position' ↔ j = i

/-- Two successes with values that agree, or two failures with the same fault at the same token. -/
inductive AgreeAt (tokens tokens' : List Token) (agree : α → β → Prop) :
    Except Diagnostic α → Except Diagnostic β → Prop where
  | ok {value value'} : agree value value' → AgreeAt tokens tokens' agree (.ok value) (.ok value')
  | error {fault position position'} : SameToken tokens tokens' position position' →
      AgreeAt tokens tokens' agree (.error ⟨fault, position⟩) (.error ⟨fault, position'⟩)

/-- Trees that are the same up to their places and that are checked alike. -/
def Expr.CheckAlike (tokens tokens' : List Token) (expr expr' : Expr) : Prop :=
  expr'.unplaced = expr.unplaced ∧
    AgreeAt tokens tokens' (fun typed typed' => typed'.unplaced = typed.unplaced)
      expr.typeCheck.result expr'.typeCheck.result

/-! ### The places of two lists of tokens -/

/-- A place where a token starts corresponds to the one where the token with the same number starts
in the other list. -/
def Correspondence.ofTokens (tokens tokens' : List Token)
    (size : tokens'.length = tokens.length) : Correspondence where
  starts position position' :=
    (position, position') ∈ (tokens.map Token.start).zip (tokens'.map Token.start) ∨
      position ∉ tokens.map Token.start
  stops _ _ := True
  exists_start position := by
    by_cases mem : position ∈ tokens.map Token.start
    · obtain ⟨i, within, rfl⟩ := List.getElem_of_mem mem
      have within' : i < (tokens'.map Token.start).length := by
        rw [List.length_map] at within ⊢
        omega
      refine ⟨(tokens'.map Token.start)[i], .inl (List.mem_iff_getElem?.2 ⟨i, ?_⟩)⟩
      rw [List.getElem?_zip_eq_some]
      exact ⟨List.getElem?_eq_getElem within, List.getElem?_eq_getElem within'⟩
    · exact ⟨position, .inr mem⟩
  exists_stop position := ⟨position, trivial⟩

section Tokens

variable {tokens tokens' : List Token} {size : tokens'.length = tokens.length}

/-- Tokens of the same kinds and values match at the places of the two lists. -/
theorem matches_ofTokens (same : tokens'.map Token.unplaced = tokens.map Token.unplaced) :
    List.Forall₂ (Token.Matches (Correspondence.ofTokens tokens tokens' size)) tokens tokens' := by
  refine List.forall₂_iff_zip.2 ⟨size.symm, fun {token token'} mem => ?_⟩
  have unplaced : token'.unplaced = token.unplaced := by
    have equal : List.Forall₂ Eq (tokens.map Token.unplaced) (tokens'.map Token.unplaced) := by
      rw [List.forall₂_eq_eq_eq]
      exact same.symm
    rw [List.forall₂_map_left_iff, List.forall₂_map_right_iff] at equal
    exact ((List.forall₂_iff_zip.1 equal).2 mem).symm
  obtain ⟨kind, value, -⟩ := Token.mk.inj unplaced
  refine ⟨kind, value, .inl ?_, trivial⟩
  rw [List.zip_map]
  exact List.mem_map_of_mem mem

/-- Tokens that start one behind the other start at different positions. -/
theorem nodup_starts
    (ordered : tokens.Pairwise fun token token' => token.start.bytes < token'.start.bytes) :
    (tokens.map Token.start).Nodup := by
  refine List.pairwise_map.2 (ordered.imp fun before same => ?_)
  rw [same] at before
  exact Nat.lt_irrefl _ before

theorem getElem?_eq_some_iff_of_nodup {α : Type} {list : List α} {item : α} {i : Nat}
    (nodup : list.Nodup) (found : list[i]? = some item) (j : Nat) :
    list[j]? = some item ↔ j = i := by
  obtain ⟨within, -⟩ := List.getElem?_eq_some_iff.1 found
  rw [← found, eq_comm, List.getElem?_inj within nodup, eq_comm]

/-- Places of the two lists that correspond are those of one token. -/
theorem sameToken_of_starts {position position' : Position}
    (nodup : (tokens.map Token.start).Nodup) (nodup' : (tokens'.map Token.start).Nodup)
    (starts : (Correspondence.ofTokens tokens tokens' size).starts position position')
    (isStart : position ∈ tokens.map Token.start) :
    SameToken tokens tokens' position position' := by
  rcases starts with mem | notStart
  · obtain ⟨i, found⟩ := List.mem_iff_getElem?.1 mem
    obtain ⟨found, found'⟩ := List.getElem?_zip_eq_some.1 found
    exact ⟨i, getElem?_eq_some_iff_of_nodup nodup found,
      getElem?_eq_some_iff_of_nodup nodup' found'⟩
  · exact absurd isStart notStart

end Tokens

/-! ### Outcomes -/

/-- Two sources whose tokens are the same but for their places, and that 32 bits can measure. -/
structure SameTokens (source source' file file' : String) : Prop where
  unplaced : (TokenSource.tokens (Scanner.ofSource source' file')).map Token.unplaced =
    (TokenSource.tokens (Scanner.ofSource source file)).map Token.unplaced
  short : source.utf8ByteSize < UInt32.size
  short' : source'.utf8ByteSize < UInt32.size

namespace SameTokens

variable {source source' file file' : String}

theorem size (h : SameTokens source source' file file') :
    (TokenSource.tokens (Scanner.ofSource source' file')).length =
      (TokenSource.tokens (Scanner.ofSource source file)).length := by
  simpa using congrArg List.length h.unplaced

/-- Outcomes that match agree at the tokens, if every failure is reported at one. -/
theorem agreeAt (h : SameTokens source source' file file') {agree agree' : α → β → Prop}
    {logged : Logged α} {logged' : Logged β}
    (same : logged.Matches (Correspondence.ofTokens _ _ h.size) agree logged')
    (reports : ∀ diagnostic, logged.result = .error diagnostic → Reports source file diagnostic)
    (agrees : ∀ value value', logged.result = .ok value → agree value value' →
      agree' value value') :
    AgreeAt (TokenSource.tokens (Scanner.ofSource source file))
      (TokenSource.tokens (Scanner.ofSource source' file')) agree' logged.result
      logged'.result := by
  cases same with
  | ok done done' same =>
    rw [done']
    rw [done] at agrees ⊢
    exact .ok (agrees _ _ rfl same)
  | @error diagnostic diagnostic' failed failed' same =>
    obtain ⟨token, mem, start⟩ := (reports diagnostic failed).startsToken h.short
    have isStart : diagnostic.position ∈
        (TokenSource.tokens (Scanner.ofSource source file)).map Token.start :=
      List.mem_map.2 ⟨token, mem, start⟩
    have token := sameToken_of_starts (nodup_starts (Scanner.starts_ordered file h.short))
      (nodup_starts (Scanner.starts_ordered file' h.short')) same.position isStart
    obtain ⟨fault, position⟩ := diagnostic
    obtain ⟨fault', position'⟩ := diagnostic'
    obtain rfl : fault' = fault := same.fault
    rw [failed, failed']
    exact .error token

/-- Programs are read and checked alike. -/
theorem parse_agreeAt (h : SameTokens source source' file file') :
    AgreeAt (TokenSource.tokens (Scanner.ofSource source file))
      (TokenSource.tokens (Scanner.ofSource source' file'))
      (Expr.CheckAlike (TokenSource.tokens (Scanner.ofSource source file))
        (TokenSource.tokens (Scanner.ofSource source' file')))
      (parse (Scanner.ofSource source file)).result
      (parse (Scanner.ofSource source' file')).result := by
  refine h.agreeAt (parse_matches (matches_ofTokens h.unplaced)) (fun _ failed => .parse failed)
    fun expr expr' read same => ⟨same.unplaced, ?_⟩
  exact h.agreeAt (Expr.typeCheck_programMatches same) (fun _ => .typeCheck (.inl read))
    fun _ _ _ same => same

/-- Single expressions are read and checked alike. -/
theorem parseExpression_agreeAt (h : SameTokens source source' file file') :
    AgreeAt (TokenSource.tokens (Scanner.ofSource source file))
      (TokenSource.tokens (Scanner.ofSource source' file'))
      (Expr.CheckAlike (TokenSource.tokens (Scanner.ofSource source file))
        (TokenSource.tokens (Scanner.ofSource source' file')))
      (parseExpression (Scanner.ofSource source file)).result
      (parseExpression (Scanner.ofSource source' file')).result := by
  refine h.agreeAt (parseExpression_matches (matches_ofTokens h.unplaced))
    (fun _ failed => .parseExpression failed) fun expr expr' read same => ⟨same.unplaced, ?_⟩
  exact h.agreeAt (Expr.typeCheck_matches same) (fun _ => .typeCheck (.inr read))
    fun _ _ _ same => same.unplaced

end SameTokens

/-- **Layout is insignificant.** A source and the same source with other layout, both of which 32
bits can measure, scan to tokens of the same kinds and values. Reading them, and then checking them,
succeeds on both, with trees that are the same up to their places, or fails on both at the same
stage, with the same fault at the same token. -/
theorem layout_insignificant {source source' : String}
    (respaced : Respaced source.toList source'.toList)
    (short : source.utf8ByteSize < UInt32.size) (short' : source'.utf8ByteSize < UInt32.size)
    (file file' : String) :
    let tokens := TokenSource.tokens (Scanner.ofSource source file)
    let tokens' := TokenSource.tokens (Scanner.ofSource source' file')
    tokens'.map Token.unplaced = tokens.map Token.unplaced ∧
      AgreeAt tokens tokens' (Expr.CheckAlike tokens tokens')
        (parse (Scanner.ofSource source file)).result
        (parse (Scanner.ofSource source' file')).result ∧
      AgreeAt tokens tokens' (Expr.CheckAlike tokens tokens')
        (parseExpression (Scanner.ofSource source file)).result
        (parseExpression (Scanner.ofSource source' file')).result := by
  have same : SameTokens source source' file file' :=
    ⟨respaced.tokens file file', short, short'⟩
  exact ⟨same.unplaced, same.parse_agreeAt, same.parseExpression_agreeAt⟩

/-- A sum that the checker refuses at its operator, with other layout before, between and behind its
tokens. -/
theorem layout_insignificant_mismatch :
    let scanner := Scanner.ofSource "1 +'a'" "shell"
    let scanner' := Scanner.ofSource "\n1\t\r+\n'a' " "file"
    let tokens := TokenSource.tokens scanner
    let tokens' := TokenSource.tokens scanner'
    Respaced "1 +'a'".toList "\n1\t\r+\n'a' ".toList ∧
      "1 +'a'".utf8ByteSize < UInt32.size ∧ "\n1\t\r+\n'a' ".utf8ByteSize < UInt32.size ∧
      AgreeAt tokens tokens' (Expr.CheckAlike tokens tokens') (parse scanner).result
        (parse scanner').result ∧
      (check scanner).result =
        .error ⟨.operandTypeMismatch "+" "Int" "Char", ⟨2, "shell"⟩⟩ ∧
      (check scanner').result =
        .error ⟨.operandTypeMismatch "+" "Int" "Char", ⟨4, "file"⟩⟩ := by
  have allLayout {gap : List Char} (all : gap.all Cursor.isLayout) :
      ∀ c ∈ gap, Cursor.isLayout c := List.all_eq_true.1 all
  have quoted : RespacedAfter "'a'".toList "'a' ".toList :=
    @RespacedAfter.token '\x27' "a'".toList [] [' '] [] [] (by decide) (by decide)
      (allLayout (by decide)) (allLayout (by decide)) (by decide) .done
  have operator : RespacedAfter "+'a'".toList "+\n'a' ".toList :=
    @RespacedAfter.token '+' "'a'".toList [] ['\n'] _ _ (by decide) (by decide)
      (allLayout (by decide)) (allLayout (by decide)) (by decide) quoted
  have number : RespacedAfter "1 +'a'".toList "1\t\r+\n'a' ".toList :=
    @RespacedAfter.token '1' " +'a'".toList [' '] ['\t', '\r'] _ _ (by decide) (by decide)
      (allLayout (by decide)) (allLayout (by decide)) (by decide) operator
  have respaced : Respaced "1 +'a'".toList "\n1\t\r+\n'a' ".toList :=
    @Respaced.text [] ['\n'] _ _ (allLayout (by decide)) (allLayout (by decide)) number
  have short : "1 +'a'".utf8ByteSize < UInt32.size := by decide
  have short' : "\n1\t\r+\n'a' ".utf8ByteSize < UInt32.size := by decide
  have same := layout_insignificant respaced short short' "shell" "file"
  exact ⟨respaced, short, short', same.2.1, by decide +kernel, by decide +kernel⟩

end ExprCheck
