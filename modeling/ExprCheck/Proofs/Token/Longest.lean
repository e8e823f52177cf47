import ExprCheck.Proofs.Token.Lexeme

/-!
# The longest lexeme

The classes of lexemes are tried one after the other, and so are the spellings of operators. What is
found first is nevertheless the longest lexeme that a text starts with:

* `Lexeme.OfLanguage`: the lexemes of the language, said of their kind, their text and their value.
* `Lexeme.IsLongest`: a lexeme that stands at the beginning of a text, with no longer one there.
* `Lexeme.first?_eq_some_iff`, `Lexeme.first?_eq_none_iff`: the lexeme that is read is the longest
  one, and none is read only where there is none.

So what is read depends on the lexemes of the language alone, and these go on one character at a
time:

* `Lexeme.OfLanguage.step`: what begins a longer lexeme begins one that is longer by a character.
* `Lexeme.EndsAlike`, `Lexeme.Breaks`: what two texts behind a lexeme need to have in common for it
  to be read alike before them, and a text that ends every lexeme.
* `Lexeme.first?_of_endsAlike`, `Lexeme.first?_eq_none_of_endsAlike`: it is read alike before them,
  and so is a character that starts no lexeme if the marks in them are the same.
-/

namespace ExprCheck

/-- The kind of a word: a reserved word has its own, and any other is an identifier. -/
def TokenKind.IsOfWord (kind : TokenKind) (word : String) : Prop :=
  (word, kind) ∈ reservedWords ∨ (kind = .identifier ∧ ∀ entry ∈ reservedWords, entry.1 ≠ word)

namespace Lexeme

/-- The marks that quoted text stands between. -/
def IsMark (c : Char) : Prop :=
  c = singleQuote ∨ c = doubleQuote

/-- The lexemes of the language, class by class. -/
inductive OfLanguage : Lexeme → Prop where
  | word {c rest kind} : isWordStart c → (∀ d ∈ rest, isWordPart d) →
      kind.IsOfWord (String.ofList (c :: rest)) → OfLanguage (plain kind (c :: rest))
  | integer {digits} : digits ≠ [] → (∀ d ∈ digits, d.isDigit) → OfLanguage (plain .integer digits)
  | float {digits decimals} : digits ≠ [] → (∀ d ∈ digits, d.isDigit) →
      (∀ d ∈ decimals, d.isDigit) → OfLanguage (plain .float (digits ++ '.' :: decimals))
  | char {c} : c ≠ singleQuote → OfLanguage ⟨.char, [singleQuote, c, singleQuote], [c]⟩
  | string {mark body} : IsMark mark → mark ∉ body → ¬ (mark = singleQuote ∧ body.length = 1) →
      OfLanguage ⟨.string, mark :: body ++ [mark], body⟩
  | symbol {text kind} : (text, kind) ∈ symbols → OfLanguage (plain kind text)

/-! ### Every lexeme that is read is one of the language -/

theorem ofWord?_of_mem_reservedWords :
    ∀ entry ∈ TokenKind.reservedWords, TokenKind.ofWord? entry.1 = some entry.2 := by
  decide

theorem isOfWord_iff {text : List Char} {kind : TokenKind} :
    kind.IsOfWord (String.ofList text) ↔ kind = wordKind text := by
  unfold TokenKind.IsOfWord wordKind
  constructor
  · rintro (mem | ⟨rfl, notReserved⟩)
    · rw [ofWord?_of_mem_reservedWords _ mem]
      rfl
    · have notFound : TokenKind.ofWord? (String.ofList text) = none := by
        simpa [TokenKind.ofWord?] using notReserved
      rw [notFound]
      rfl
  · rintro rfl
    cases named : TokenKind.ofWord? (String.ofList text) with
    | none =>
      refine .inr ⟨rfl, ?_⟩
      simpa [TokenKind.ofWord?] using named
    | some kind =>
      obtain ⟨entry, found, rfl⟩ := Option.map_eq_some_iff.1 named
      have same : entry.1 = String.ofList text := by simpa using List.find?_some found
      rw [← same]
      exact .inl (List.mem_of_find?_eq_some found)

theorem OfLanguage.quoted {mark : Char} {body : List Char} (isMark : IsMark mark)
    (notIn : mark ∉ body) : OfLanguage ⟨quotedKind mark body, mark :: body ++ [mark], body⟩ := by
  unfold quotedKind
  split
  · next isChar =>
    obtain ⟨rfl, size⟩ := isChar
    obtain ⟨c, rfl⟩ := List.length_eq_one_iff.1 size
    exact .char (by simpa [eq_comm] using notIn)
  · next notChar => exact .string isMark notIn notChar

theorem word?_ofLanguage {text : List Char} {lexeme : Lexeme} (h : word? text = some lexeme) :
    lexeme.OfLanguage := by
  unfold word? at h
  split at h
  · cases h
  · split at h
    · next starts =>
      obtain rfl := Option.some.inj h
      exact .word starts (fun d mem => List.mem_takeWhile_imp mem) (isOfWord_iff.2 rfl)
    · cases h

theorem number?_ofLanguage {text : List Char} {lexeme : Lexeme} (h : number? text = some lexeme) :
    lexeme.OfLanguage := by
  have areDigits : ∀ d ∈ text.takeWhile Char.isDigit, d.isDigit :=
    fun d mem => List.mem_takeWhile_imp mem
  unfold number? at h
  split at h
  · cases h
  · next digit digits eq =>
    rw [eq] at areDigits
    split at h
    · obtain rfl := Option.some.inj h
      exact .float (List.cons_ne_nil _ _) areDigits fun d mem => List.mem_takeWhile_imp mem
    · obtain rfl := Option.some.inj h
      exact .integer (List.cons_ne_nil _ _) areDigits

theorem quoted?_ofLanguage {mark : Char} (isMark : IsMark mark) {text : List Char}
    {lexeme : Lexeme} (h : quoted? mark text = some lexeme) : lexeme.OfLanguage := by
  unfold quoted? at h
  split at h
  · cases h
  · split at h
    · dsimp only at h
      split at h
      · cases h
      · obtain rfl := Option.some.inj h
        refine .quoted isMark fun mem => ?_
        simpa using List.mem_takeWhile_imp mem
    · cases h

theorem symbol?_ofLanguage {text : List Char} {lexeme : Lexeme} (h : symbol? text = some lexeme) :
    lexeme.OfLanguage := by
  obtain ⟨entry, found, rfl⟩ := Option.map_eq_some_iff.1 h
  exact .symbol (List.mem_of_find?_eq_some found)

theorem first?_ofLanguage {text : List Char} {lexeme : Lexeme} (h : first? text = some lexeme) :
    lexeme.OfLanguage := by
  obtain ⟨lexeme?, mem, h⟩ := List.exists_of_findSome?_eq_some h
  simp only [classes, List.mem_cons, List.not_mem_nil, or_false] at mem
  rcases mem with rfl | rfl | rfl | rfl | rfl
  · exact word?_ofLanguage h
  · exact number?_ofLanguage h
  · exact quoted?_ofLanguage (.inl rfl) h
  · exact quoted?_ofLanguage (.inr rfl) h
  · exact symbol?_ofLanguage h

/-! ### Every lexeme of the language is reached -/

/-- At the beginning of the text no lexeme is read that is shorter than this one, and none but this
one is read that is as long. -/
def Reached (text : List Char) (lexeme : Lexeme) : Prop :=
  ∃ read, first? text = some read ∧ lexeme.text.length ≤ read.text.length ∧
    (read.text = lexeme.text → read = lexeme)

theorem not_isWordStart_of_isDigit {c : Char} (h : c.isDigit) : isWordStart c = false := by
  have small : c.val ≤ 57 := of_decide_eq_true (Bool.and_eq_true_iff.1 h).2
  have notUpper : c.isUpper = false :=
    decide_eq_false fun upper => absurd (UInt32.le_trans upper.1 small) (by decide)
  have notLower : c.isLower = false :=
    Bool.and_eq_false_imp.2 fun lower =>
      absurd (UInt32.le_trans (of_decide_eq_true lower) small) (by decide)
  have notLine : (c == '_') = false := by
    rw [beq_eq_false_iff_ne]
    rintro rfl
    cases h
  show (c.isUpper || c.isLower || c == '_') = false
  rw [notUpper, notLower, notLine]
  rfl

theorem word?_eq_none {c : Char} (h : isWordStart c = false) (rest : List Char) :
    word? (c :: rest) = none :=
  if_neg (by simp [h])

theorem number?_eq_none {c : Char} (h : c.isDigit = false) (rest : List Char) :
    number? (c :: rest) = none := by
  rw [number?, List.takeWhile_cons_of_neg (by simp [h])]

theorem word_reached {c : Char} {rest more : List Char} {kind : TokenKind} (starts : isWordStart c)
    (parts : ∀ d ∈ rest, isWordPart d) (isOfWord : kind.IsOfWord (String.ofList (c :: rest))) :
    Reached (c :: rest ++ more) (plain kind (c :: rest)) := by
  have run : (rest ++ more).takeWhile isWordPart = rest ++ more.takeWhile isWordPart :=
    List.takeWhile_append_of_pos parts
  have read : word? (c :: rest ++ more) =
      some (plain (wordKind (c :: (rest ++ more.takeWhile isWordPart)))
        (c :: (rest ++ more.takeWhile isWordPart))) := by
    rw [List.cons_append, word?, if_pos starts, run]
  refine ⟨_, by rw [first?_eq, read, Option.some_or], ?_, fun same => ?_⟩
  · simp [plain]
  · have same : c :: (rest ++ more.takeWhile isWordPart) = c :: rest := same
    rw [same, isOfWord_iff.1 isOfWord]

/-- The number of some digits, by what follows them. -/
def numberBefore (digits : List Char) : List Char → Lexeme
  | '.' :: rest => plain .float (digits ++ '.' :: rest.takeWhile Char.isDigit)
  | _ => plain .integer digits

/-- What a text reads as that starts with these digits and no more. -/
theorem number?_of_digits {digits more : List Char} (notNil : digits ≠ [])
    (areDigits : ∀ d ∈ digits, d.isDigit) (ends : ∀ d ∈ more.head?, d.isDigit = false) :
    number? (digits ++ more) = some (numberBefore digits more) := by
  have stops : more.takeWhile Char.isDigit = [] ∧ more.dropWhile Char.isDigit = more := by
    cases more with
    | nil => exact ⟨rfl, rfl⟩
    | cons c rest =>
      have notDigit : ¬ c.isDigit := by simp [ends c rfl]
      exact ⟨List.takeWhile_cons_of_neg notDigit, List.dropWhile_cons_of_neg notDigit⟩
  have run : (digits ++ more).takeWhile Char.isDigit = digits := by
    rw [List.takeWhile_append_of_pos areDigits, stops.1, List.append_nil]
  have rest : (digits ++ more).dropWhile Char.isDigit = more := by
    rw [List.dropWhile_append_of_pos areDigits, stops.2]
  obtain ⟨digit, digits, rfl⟩ := List.exists_cons_of_ne_nil notNil
  rw [number?, run, rest]
  cases more with
  | nil => rfl
  | cons c rest =>
    by_cases point : c = '.'
    · subst point
      rfl
    · simp [numberBefore, point]

theorem Reached.of_number? {digits more : List Char} {lexeme read : Lexeme} (notNil : digits ≠ [])
    (areDigits : ∀ d ∈ digits, d.isDigit) (found : number? (digits ++ more) = some read)
    (atLeast : lexeme.text.length ≤ read.text.length)
    (unique : read.text = lexeme.text → read = lexeme) : Reached (digits ++ more) lexeme := by
  refine ⟨read, ?_, atLeast, unique⟩
  obtain ⟨digit, digits, rfl⟩ := List.exists_cons_of_ne_nil notNil
  have noWord := word?_eq_none (not_isWordStart_of_isDigit (areDigits digit List.mem_cons_self))
    (digits ++ more)
  rw [List.cons_append] at found ⊢
  rw [first?_eq, noWord, found]
  rfl

theorem integer_reached {digits more : List Char} (notNil : digits ≠ [])
    (areDigits : ∀ d ∈ digits, d.isDigit) : Reached (digits ++ more) (plain .integer digits) := by
  -- The digits may go on in the rest of the text.
  have parts : more.takeWhile Char.isDigit ++ more.dropWhile Char.isDigit = more :=
    List.takeWhile_append_dropWhile
  have all : ∀ d ∈ digits ++ more.takeWhile Char.isDigit, d.isDigit := by
    intro d mem
    rcases List.mem_append.1 mem with mem | mem
    · exact areDigits d mem
    · exact List.mem_takeWhile_imp mem
  have ends : ∀ d ∈ (more.dropWhile Char.isDigit).head?, d.isDigit = false := fun d mem => by
    simpa [Option.mem_def.1 mem] using List.head?_dropWhile_not Char.isDigit more
  have read := number?_of_digits (List.append_ne_nil_of_left_ne_nil notNil _) all ends
  rw [List.append_assoc, parts] at read
  unfold numberBefore at read
  split at read
  · refine .of_number? notNil areDigits read (by simp [plain]) fun same => ?_
    have mem : '.' ∈ digits := by
      rw [show digits = _ from same.symm]
      simp [plain]
    cases areDigits '.' mem
  · refine .of_number? notNil areDigits read (by simp [plain]) fun same => ?_
    rw [show digits ++ more.takeWhile Char.isDigit = digits from same]

theorem float_reached {digits decimals more : List Char} (notNil : digits ≠ [])
    (areDigits : ∀ d ∈ digits, d.isDigit) (areDecimals : ∀ d ∈ decimals, d.isDigit) :
    Reached (digits ++ '.' :: decimals ++ more) (plain .float (digits ++ '.' :: decimals)) := by
  have ends : ∀ d ∈ ('.' :: (decimals ++ more)).head?, d.isDigit = false := by
    intro d mem
    obtain rfl := Option.some.inj mem
    rfl
  have read := number?_of_digits notNil areDigits ends
  rw [List.append_assoc]
  rw [numberBefore] at read
  refine .of_number? notNil areDigits read ?_ fun same => ?_
  · simp [plain, List.takeWhile_append_of_pos areDecimals]
  · rw [show digits ++ '.' :: (decimals ++ more).takeWhile Char.isDigit =
      digits ++ '.' :: decimals from same]

theorem quoted?_of_mark {mark : Char} {body : List Char} (notIn : mark ∉ body) (more : List Char) :
    quoted? mark (mark :: body ++ [mark] ++ more) =
      some ⟨quotedKind mark body, mark :: body ++ [mark], body⟩ := by
  have others : ∀ c ∈ body, decide (c ≠ mark) = true := by
    intro c mem
    simpa using fun same : c = mark => notIn (same ▸ mem)
  have run : (body ++ mark :: more).takeWhile (· ≠ mark) = body := by
    rw [List.takeWhile_append_of_pos others]
    simp
  have rest : (body ++ mark :: more).dropWhile (· ≠ mark) = mark :: more := by
    rw [List.dropWhile_append_of_pos others]
    simp
  have whole : mark :: body ++ [mark] ++ more = mark :: (body ++ mark :: more) := by simp
  rw [whole, quoted?, if_pos rfl, run, rest]

theorem quoted_reached {mark : Char} {body : List Char} (isMark : IsMark mark)
    (notIn : mark ∉ body) (more : List Char) :
    Reached (mark :: body ++ [mark] ++ more)
      ⟨quotedKind mark body, mark :: body ++ [mark], body⟩ :=
  ⟨_, (first?_mark isMark _).trans (quoted?_of_mark notIn more), Nat.le_refl _, fun _ => rfl⟩

/-- Operators and delimiters start with characters that no other lexeme starts with. -/
theorem head_of_mem_symbols {c : Char} {text : List Char} {kind : TokenKind}
    (mem : (c :: text, kind) ∈ symbols) :
    isWordStart c = false ∧ c.isDigit = false ∧ c ≠ singleQuote ∧ c ≠ doubleQuote := by
  have all : ∀ entry ∈ symbols, entry.1.head?.all fun c =>
      isWordStart c = false ∧ c.isDigit = false ∧ c ≠ singleQuote ∧ c ≠ doubleQuote := by
    decide
  simpa using all _ mem

/-- No spelling stands before a longer one that begins with it. -/
theorem symbols_pairwise : symbols.Pairwise fun entry later => ¬ entry.1 <+: later.1 := by
  decide

/-- Of the spellings that a text starts with, the first is at least as long as the others. -/
theorem find?_symbols {text : List Char} {entry : List Char × TokenKind} (mem : entry ∈ symbols)
    (isPrefix : entry.1 <+: text) :
    ∃ found, symbols.find? (fun entry => entry.1.isPrefixOf text) = some found ∧
      entry.1.length ≤ found.1.length ∧ (found.1 = entry.1 → found = entry) := by
  cases eq : symbols.find? fun entry => entry.1.isPrefixOf text with
  | none => exact absurd (List.isPrefixOf_iff_prefix.2 isPrefix) (List.find?_eq_none.1 eq _ mem)
  | some found =>
    obtain ⟨foundPrefix, before, after, split, earlier⟩ := List.find?_eq_some_iff_append.1 eq
    have foundPrefix : found.1 <+: text := List.isPrefixOf_iff_prefix.1 foundPrefix
    refine ⟨found, rfl, ?_⟩
    have order := symbols_pairwise
    rw [split] at mem order
    rcases List.mem_append.1 mem with mem | mem
    · have notPrefix : entry.1.isPrefixOf text = false := by simpa using earlier entry mem
      rw [List.isPrefixOf_iff_prefix.2 isPrefix] at notPrefix
      cases notPrefix
    rcases List.mem_cons.1 mem with rfl | mem
    · exact ⟨Nat.le_refl _, fun _ => rfl⟩
    have behind : ¬ found.1 <+: entry.1 :=
      List.rel_of_pairwise_cons (List.pairwise_append.1 order).2.1 mem
    refine ⟨?_, fun same => absurd (same ▸ List.prefix_refl _) behind⟩
    exact ((List.prefix_or_prefix_of_prefix isPrefix foundPrefix).resolve_right behind).length_le

theorem symbol_reached {text more : List Char} {kind : TokenKind} (mem : (text, kind) ∈ symbols) :
    Reached (text ++ more) (plain kind text) := by
  obtain ⟨found, eq, atLeast, unique⟩ := find?_symbols mem (List.prefix_append text more)
  have read : symbol? (text ++ more) = some (plain found.2 found.1) := by
    rw [symbol?, eq]
    rfl
  refine ⟨plain found.2 found.1, ?_, atLeast, fun same => by rw [unique same]⟩
  obtain ⟨c, text, rfl⟩ := List.exists_cons_of_ne_nil (symbols_text_ne_nil _ mem)
  obtain ⟨notStart, notDigit, notSingle, notDouble⟩ := head_of_mem_symbols mem
  rw [List.cons_append] at read ⊢
  rw [first?_eq, word?_eq_none notStart, number?_eq_none notDigit, quoted?, if_neg notSingle,
    quoted?, if_neg notDouble, read]
  rfl

theorem OfLanguage.reached {lexeme : Lexeme} (h : lexeme.OfLanguage) (more : List Char) :
    Reached (lexeme.text ++ more) lexeme := by
  cases h with
  | word starts parts isOfWord => exact word_reached starts parts isOfWord
  | integer notNil areDigits => exact integer_reached notNil areDigits
  | float notNil areDigits areDecimals => exact float_reached notNil areDigits areDecimals
  | @char c notMark =>
    have notIn : singleQuote ∉ [c] := by simpa [eq_comm] using notMark
    exact quoted_reached (.inl rfl) notIn more
  | @string mark body isMark notIn notChar =>
    have reached := quoted_reached isMark notIn more
    rw [quotedKind, if_neg notChar] at reached
    exact reached
  | symbol mem => exact symbol_reached mem

/-! ### The longest one is read -/

/-- The lexeme stands at the beginning of the text, and every other lexeme there is shorter. -/
structure IsLongest (text : List Char) (lexeme : Lexeme) : Prop where
  ofLanguage : lexeme.OfLanguage
  isPrefix : lexeme.text <+: text
  longest : ∀ other : Lexeme, other.OfLanguage → other.text <+: text →
    other = lexeme ∨ other.text.length < lexeme.text.length

theorem first?_eq_some_iff {text : List Char} {lexeme : Lexeme} :
    first? text = some lexeme ↔ IsLongest text lexeme := by
  constructor
  · intro found
    refine ⟨first?_ofLanguage found, first?_isPrefix found, fun other ofLanguage isPrefix => ?_⟩
    obtain ⟨more, rfl⟩ := isPrefix
    obtain ⟨read, found', atLeast, unique⟩ := ofLanguage.reached more
    rw [found] at found'
    cases found'
    rcases Nat.lt_or_ge other.text.length lexeme.text.length with shorter | atMost
    · exact .inr shorter
    · have within : lexeme.text <+: other.text :=
        List.prefix_of_prefix_length_le (first?_isPrefix found) (List.prefix_append _ more) atMost
      exact .inl (unique (within.eq_of_length (Nat.le_antisymm atMost atLeast))).symm
  · rintro ⟨ofLanguage, ⟨more, rfl⟩, longest⟩
    obtain ⟨read, found, atLeast, -⟩ := ofLanguage.reached more
    rcases longest read (first?_ofLanguage found) (first?_isPrefix found) with rfl | shorter
    · exact found
    · exact absurd shorter (Nat.not_lt.2 atLeast)

/-- A lexeme alone reads as itself. -/
theorem OfLanguage.first?_text {lexeme : Lexeme} (h : lexeme.OfLanguage) :
    first? lexeme.text = some lexeme := by
  obtain ⟨read, found, atLeast, unique⟩ := h.reached []
  rw [List.append_nil] at found
  rw [found, unique ((first?_isPrefix found).eq_of_length_le atLeast)]

/-- Of a text nothing is read just if it starts with no lexeme. -/
theorem first?_eq_none_iff {text : List Char} :
    first? text = none ↔ ∀ lexeme : Lexeme, lexeme.OfLanguage → ¬ lexeme.text <+: text := by
  constructor
  · rintro notFound lexeme ofLanguage ⟨more, rfl⟩
    obtain ⟨read, found, -⟩ := ofLanguage.reached more
    rw [notFound] at found
    cases found
  · intro noLexeme
    cases found : first? text with
    | none => rfl
    | some lexeme =>
      exact absurd (first?_isPrefix found) (noLexeme lexeme (first?_ofLanguage found))

/-! ### What may follow a lexeme -/

/-- Whether a lexeme can go on with a character. -/
def continues (c : Char) : Bool :=
  isWordPart c || c == '.' || c == '=' || c == '<' || c == '>'

theorem continues_of_isWordPart {c : Char} (h : isWordPart c) : continues c := by
  simp [continues, h]

theorem continues_of_isDigit {c : Char} (h : c.isDigit) : continues c :=
  continues_of_isWordPart (by simp [isWordPart, Char.isAlphanum, h])

/-- Operators and delimiters have at most two characters, and the second can continue a lexeme. -/
theorem tail_of_mem_symbols {text : List Char} {kind : TokenKind} (mem : (text, kind) ∈ symbols) :
    ∀ c ∈ text.tail, continues c ∧ text.tail = [c] := by
  have all : ∀ entry ∈ symbols, entry.1.tail.all fun c => continues c ∧ entry.1.tail = [c] := by
    decide
  intro c inTail
  simpa using List.all_eq_true.1 (all _ mem) c inTail

theorem quoted?_eq_none_of_not_mem {mark : Char} {rest : List Char} (h : mark ∉ rest) :
    quoted? mark (mark :: rest) = none := by
  have all : rest.dropWhile (· ≠ mark) = [] := by
    rw [List.dropWhile_eq_nil_iff]
    intro c mem
    simpa using fun same : c = mark => h (same ▸ mem)
  rw [quoted?, if_pos rfl, all]

namespace OfLanguage

variable {lexeme longer : Lexeme} {c : Char} {rest : List Char}

theorem mem_of_step {text : List Char} {d : Char} (mem : d ∈ text ++ [c]) :
    d ∈ text ++ c :: rest := by
  rw [← List.singleton_append, ← List.append_assoc]
  exact List.mem_append_left rest mem

theorem text_ne_nil (h : lexeme.OfLanguage) : lexeme.text ≠ [] :=
  (first?_proper h.first?_text).1

/-- No lexeme is the beginning of a longer text between two marks. -/
theorem not_quoted {mark : Char} {body : List Char} (h : lexeme.OfLanguage) (isMark : IsMark mark)
    (notIn : mark ∉ body) : mark :: body ++ [mark] ≠ lexeme.text ++ c :: rest := by
  intro eq
  have found := h.first?_text
  obtain ⟨first, text, split⟩ := List.exists_cons_of_ne_nil h.text_ne_nil
  rw [split] at eq found
  obtain ⟨rfl, behind⟩ : mark = first ∧ body ++ [mark] = text ++ c :: rest := List.cons.inj eq
  have within : text <+: body := by
    have begins : text <+: body ++ [mark] := ⟨c :: rest, behind.symm⟩
    refine List.prefix_of_prefix_length_le begins (List.prefix_append _ _) ?_
    have size := congrArg List.length behind
    simp only [List.length_append, List.length_cons, List.length_nil] at size
    omega
  rw [first?_mark isMark,
    quoted?_eq_none_of_not_mem fun mem => notIn (within.subset mem)] at found
  cases found

/-- A lexeme goes on one character at a time: what begins a longer lexeme begins one that is longer
by a character. -/
theorem step (h : lexeme.OfLanguage) (h' : longer.OfLanguage)
    (eq : longer.text = lexeme.text ++ c :: rest) :
    continues c ∧ ∃ next : Lexeme, next.OfLanguage ∧ next.text = lexeme.text ++ [c] := by
  have notNil := h.text_ne_nil
  cases h' with
  | @word first parts kind starts areParts _ =>
    obtain ⟨first', text, split⟩ := List.exists_cons_of_ne_nil notNil
    rw [split] at eq ⊢
    obtain ⟨rfl, rfl⟩ : first = first' ∧ parts = text ++ c :: rest := List.cons.inj eq
    refine ⟨continues_of_isWordPart (areParts c (by simp)), plain _ (first :: (text ++ [c])),
      .word starts (fun d mem => areParts d (mem_of_step mem)) (isOfWord_iff.2 rfl), rfl⟩
  | @integer digits _ areDigits =>
    obtain rfl : digits = lexeme.text ++ c :: rest := eq
    exact ⟨continues_of_isDigit (areDigits c (by simp)), plain .integer (lexeme.text ++ [c]),
      .integer (by simp) fun d mem => areDigits d (mem_of_step mem), rfl⟩
  | @float digits decimals isNumber areDigits areDecimals =>
    obtain eq : digits ++ '.' :: decimals = lexeme.text ++ c :: rest := eq
    have point : OfLanguage (plain .float (digits ++ ['.'])) :=
      .float isNumber areDigits fun _ mem => absurd mem List.not_mem_nil
    rcases List.append_eq_append_iff.1 eq with ⟨passed, text, eq⟩ | ⟨ahead, split, eq⟩
    · cases passed with
      | nil =>
        obtain ⟨rfl, -⟩ := List.cons.inj eq
        exact ⟨rfl, _, point, by rw [text, List.append_nil]; rfl⟩
      | cons _ passed =>
        obtain ⟨rfl, rfl⟩ := List.cons.inj eq
        refine ⟨continues_of_isDigit (areDecimals c (by simp)),
          plain .float (digits ++ '.' :: (passed ++ [c])),
          .float isNumber areDigits fun d mem => areDecimals d (mem_of_step mem), ?_⟩
        simp [text, plain]
    · cases ahead with
      | nil =>
        obtain ⟨rfl, -⟩ := List.cons.inj eq
        exact ⟨rfl, _, point, by rw [split, List.append_nil]; rfl⟩
      | cons _ ahead =>
        obtain ⟨rfl, -⟩ := List.cons.inj eq
        rw [split] at areDigits
        exact ⟨continues_of_isDigit (areDigits c (by simp)), plain .integer (lexeme.text ++ [c]),
          .integer (by simp) fun d mem => areDigits d (mem_of_step mem), rfl⟩
  | @char inner notMark =>
    have notIn : singleQuote ∉ [inner] := by simpa [eq_comm] using notMark
    exact absurd eq (h.not_quoted (.inl rfl) notIn)
  | string isMark notIn _ => exact absurd eq (h.not_quoted isMark notIn)
  | @symbol text kind mem =>
    obtain rfl : text = lexeme.text ++ c :: rest := eq
    obtain ⟨first, text, split⟩ := List.exists_cons_of_ne_nil notNil
    rw [split] at mem ⊢
    obtain ⟨goesOn, only⟩ := tail_of_mem_symbols mem c (by simp)
    have only : text ++ c :: rest = [c] := only
    obtain ⟨rfl, rfl⟩ : text = [] ∧ rest = [] := by
      have size := congrArg List.length only
      simp only [List.length_append, List.length_cons, List.length_nil] at size
      exact ⟨List.eq_nil_of_length_eq_zero (by omega), List.eq_nil_of_length_eq_zero (by omega)⟩
    exact ⟨goesOn, _, .symbol mem, rfl⟩

end OfLanguage

/-- With the second text behind it, a lexeme goes on in no way in which it would not go on with the
first text behind it. -/
def EndsAlike (more more' : List Char) : Prop :=
  ∀ c ∈ more'.head?, continues c → c ∈ more.head?

/-- A text at whose beginning every lexeme before it has ended. -/
def Breaks (text : List Char) : Prop :=
  ∀ c ∈ text.head?, continues c = false

theorem Breaks.endsAlike {more' : List Char} (h : Breaks more') (more : List Char) :
    EndsAlike more more' := by
  intro c mem goesOn
  rw [h c mem] at goesOn
  cases goesOn

theorem endsAlike_append (rest : List Char) {more : List Char} (h : Breaks more) :
    EndsAlike rest (rest ++ more) := by
  cases rest with
  | nil => exact h.endsAlike []
  | cons c rest => exact fun _ mem _ => mem

theorem EndsAlike.cons_prefix {more more' : List Char} (h : EndsAlike more more') {c : Char}
    {rest : List Char} (isPrefix : c :: rest <+: more') (goesOn : continues c) : [c] <+: more := by
  obtain ⟨later, rfl⟩ := isPrefix
  have mem := h c rfl goesOn
  cases more with
  | nil => cases mem
  | cons d more =>
    obtain rfl := Option.some.inj mem
    exact ⟨more, rfl⟩

/-- A lexeme is read alike before texts that it ends alike before. -/
theorem first?_of_endsAlike {lexeme : Lexeme} {more more' : List Char}
    (h : first? (lexeme.text ++ more) = some lexeme) (alike : EndsAlike more more') :
    first? (lexeme.text ++ more') = some lexeme := by
  obtain ⟨ofLanguage, -, longest⟩ := first?_eq_some_iff.1 h
  refine first?_eq_some_iff.2
    ⟨ofLanguage, List.prefix_append _ _, fun other ofLanguage' isPrefix => ?_⟩
  rcases List.prefix_or_prefix_of_prefix isPrefix (List.prefix_append _ _) with within | beyond
  · exact longest other ofLanguage' (within.trans (List.prefix_append _ more))
  obtain ⟨later, eq⟩ := beyond
  cases later with
  | nil =>
    rw [List.append_nil] at eq
    exact longest other ofLanguage' (eq ▸ List.prefix_append _ more)
  | cons c later =>
    -- The next character is the same before both texts, so the lexeme was not the longest.
    obtain ⟨goesOn, next, isNext, text⟩ := ofLanguage.step ofLanguage' eq.symm
    rw [← eq] at isPrefix
    have within := alike.cons_prefix ((List.prefix_append_right_inj _).1 isPrefix) goesOn
    have size := congrArg List.length text
    rw [List.length_append, List.length_singleton] at size
    rcases longest next isNext (text ▸ (List.prefix_append_right_inj lexeme.text).2 within) with
      rfl | shorter <;> omega

/-- Before a break, a lexeme is the same as at the end of the input. -/
theorem first?_append {text more : List Char} {lexeme : Lexeme} (h : first? text = some lexeme)
    (breaks : Breaks more) : first? (text ++ more) = some lexeme := by
  obtain ⟨rest, rfl⟩ := first?_isPrefix h
  rw [List.append_assoc]
  exact first?_of_endsAlike h (endsAlike_append rest breaks)

/-- A mark with another one somewhere behind it starts a quoted text. -/
theorem exists_quoted {mark : Char} {more : List Char} (isMark : IsMark mark) (mem : mark ∈ more) :
    ∃ lexeme : Lexeme, lexeme.OfLanguage ∧ lexeme.text <+: mark :: more := by
  obtain ⟨body, later, rfl, notIn⟩ := List.eq_append_cons_of_mem mem
  exact ⟨_, .quoted isMark notIn, later, by simp⟩

theorem exists_number {c : Char} (isDigit : c.isDigit) (more : List Char) :
    ∃ lexeme : Lexeme, lexeme.OfLanguage ∧ lexeme.text <+: c :: more :=
  ⟨plain .integer [c], .integer (List.cons_ne_nil _ _) (by simpa using isDigit), more, rfl⟩

theorem exists_word {c : Char} (starts : isWordStart c) (more : List Char) :
    ∃ lexeme : Lexeme, lexeme.OfLanguage ∧ lexeme.text <+: c :: more :=
  ⟨plain _ [c], .word starts (fun _ mem => absurd mem List.not_mem_nil) (isOfWord_iff.2 rfl), more,
    rfl⟩

/-- If a lexeme starts with a character before the second text, one does before the first: lexemes
end alike before them, and the first has all marks of the second. -/
theorem OfLanguage.exists_of_endsAlike {lexeme : Lexeme} {c : Char} {more more' : List Char}
    (h : lexeme.OfLanguage) (isPrefix : lexeme.text <+: c :: more') (alike : EndsAlike more more')
    (marks : ∀ mark, IsMark mark → mark ∈ more' → mark ∈ more) :
    ∃ lexeme : Lexeme, lexeme.OfLanguage ∧ lexeme.text <+: c :: more := by
  cases h with
  | word starts _ _ =>
    obtain ⟨rfl, -⟩ := List.cons_prefix_cons.1 isPrefix
    exact exists_word starts more
  | @integer digits notNil areDigits =>
    obtain ⟨digit, digits, rfl⟩ := List.exists_cons_of_ne_nil notNil
    obtain ⟨rfl, -⟩ := List.cons_prefix_cons.1 isPrefix
    exact exists_number (areDigits _ List.mem_cons_self) more
  | @float digits _ notNil areDigits _ =>
    obtain ⟨digit, digits, rfl⟩ := List.exists_cons_of_ne_nil notNil
    obtain ⟨rfl, -⟩ := List.cons_prefix_cons.1 isPrefix
    exact exists_number (areDigits _ List.mem_cons_self) more
  | @char inner _ =>
    obtain ⟨rfl, behind⟩ := List.cons_prefix_cons.1 isPrefix
    exact exists_quoted (.inl rfl) (marks _ (.inl rfl) (behind.subset (by simp)))
  | @string mark body isMark _ _ =>
    obtain ⟨rfl, behind⟩ := List.cons_prefix_cons.1 isPrefix
    exact exists_quoted isMark (marks _ isMark (behind.subset (by simp)))
  | @symbol text kind mem =>
    obtain ⟨first, tail, rfl⟩ := List.exists_cons_of_ne_nil (symbols_text_ne_nil _ mem)
    obtain ⟨rfl, behind⟩ := List.cons_prefix_cons.1 isPrefix
    refine ⟨_, .symbol mem, List.cons_prefix_cons.2 ⟨rfl, ?_⟩⟩
    cases tail with
    | nil => exact List.nil_prefix
    | cons second tail =>
      obtain ⟨goesOn, only⟩ := tail_of_mem_symbols mem second (by simp)
      have only : second :: tail = [second] := only
      rw [only]
      exact alike.cons_prefix behind goesOn

/-- A character that starts no lexeme starts none before a text that lexemes end alike before, if
there are no marks in it that are new. -/
theorem first?_eq_none_of_endsAlike {c : Char} {more more' : List Char}
    (h : first? (c :: more) = none) (alike : EndsAlike more more')
    (marks : ∀ mark, IsMark mark → mark ∈ more' → mark ∈ more) : first? (c :: more') = none := by
  refine first?_eq_none_iff.2 fun lexeme ofLanguage isPrefix => ?_
  obtain ⟨other, ofLanguage', isPrefix'⟩ := ofLanguage.exists_of_endsAlike isPrefix alike marks
  exact first?_eq_none_iff.1 h other ofLanguage' isPrefix'

end Lexeme

end ExprCheck
