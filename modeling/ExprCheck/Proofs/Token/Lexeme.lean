import ExprCheck.Token.Lexeme
import Mathlib.Data.List.Find
import Mathlib.Data.List.TakeWhile

/-!
# Lexemes at the beginning of a text

* `Lexeme.first?_isPrefix`: the lexeme at the beginning of a text is a part of it.
* `Lexeme.first?_eq`: the classes of lexemes, one tried after the other.
* `Lexeme.first?_mark`: a mark starts nothing but a quoted text.
-/

namespace ExprCheck

namespace Lexeme

/-! ### A lexeme is a part of the text -/

theorem word?_prefix {text : List Char} {lexeme : Lexeme} (h : word? text = some lexeme) :
    lexeme.text <+: text := by
  unfold word? at h
  split at h
  · cases h
  · split at h
    · obtain rfl := Option.some.inj h
      exact (List.prefix_cons_inj _).2 (List.takeWhile_prefix _)
    · cases h

theorem number?_prefix {text : List Char} {lexeme : Lexeme} (h : number? text = some lexeme) :
    lexeme.text <+: text := by
  have parts : text = text.takeWhile Char.isDigit ++ text.dropWhile Char.isDigit :=
    List.takeWhile_append_dropWhile.symm
  unfold number? at h
  split at h
  · cases h
  · next digit digits isDigits =>
    rw [isDigits] at parts
    split at h
    · next rest afterPoint =>
      obtain rfl := Option.some.inj h
      rw [parts, afterPoint]
      exact (List.prefix_append_right_inj _).2
        ((List.prefix_cons_inj _).2 (List.takeWhile_prefix _))
    · obtain rfl := Option.some.inj h
      rw [parts]
      exact List.prefix_append _ _

theorem quoted?_prefix {mark : Char} {text : List Char} {lexeme : Lexeme}
    (h : quoted? mark text = some lexeme) : lexeme.text <+: text := by
  unfold quoted? at h
  split at h
  · cases h
  · next c rest =>
    split at h
    · next isMark =>
      dsimp only at h
      split at h
      · cases h
      · next closing later eq =>
        obtain rfl := Option.some.inj h
        have parts : rest = rest.takeWhile (· ≠ mark) ++ rest.dropWhile (· ≠ mark) :=
          List.takeWhile_append_dropWhile.symm
        have closes : closing = mark := by
          have stopped := List.head?_dropWhile_not (fun c => decide (c ≠ mark)) rest
          rw [eq] at stopped
          simpa using stopped
        rw [eq, closes] at parts
        refine ⟨later, ?_⟩
        rw [isMark, List.append_assoc]
        exact congrArg _ parts.symm
    · cases h

theorem symbol?_prefix {text : List Char} {lexeme : Lexeme} (h : symbol? text = some lexeme) :
    lexeme.text <+: text := by
  obtain ⟨entry, found, rfl⟩ := Option.map_eq_some_iff.1 h
  have isPrefix := List.find?_some found
  exact List.isPrefixOf_iff_prefix.1 isPrefix

theorem first?_isPrefix {text : List Char} {lexeme : Lexeme} (h : first? text = some lexeme) :
    lexeme.text <+: text := by
  obtain ⟨lexeme?, mem, h⟩ := List.exists_of_findSome?_eq_some h
  simp only [classes, List.mem_cons, List.not_mem_nil, or_false] at mem
  rcases mem with rfl | rfl | rfl | rfl | rfl
  · exact word?_prefix h
  · exact number?_prefix h
  · exact quoted?_prefix h
  · exact quoted?_prefix h
  · exact symbol?_prefix h

/-! ### The classes in their order -/

/-- The classes of lexemes in the order in which they are tried. -/
theorem first?_eq (text : List Char) :
    first? text = (word? text).or ((number? text).or ((quoted? singleQuote text).or
      ((quoted? doubleQuote text).or (symbol? text)))) := by
  have step : ∀ (lexeme? : List Char → Option Lexeme) later,
      (lexeme? :: later).findSome? (fun lexeme? => lexeme? text) =
        (lexeme? text).or (later.findSome? fun lexeme? => lexeme? text) := by
    intro lexeme? later
    rw [List.findSome?_cons]
    cases lexeme? text <;> rfl
  simp only [first?, classes, step, List.findSome?_nil, Option.or_none]

/-- A mark starts nothing but a quoted text. -/
theorem first?_mark {mark : Char} (h : mark = singleQuote ∨ mark = doubleQuote)
    (rest : List Char) : first? (mark :: rest) = quoted? mark (mark :: rest) := by
  rw [first?_eq]
  rcases h with rfl | rfl
  · rw [show word? (singleQuote :: rest) = none from rfl,
      show number? (singleQuote :: rest) = none from rfl,
      show quoted? doubleQuote (singleQuote :: rest) = none from rfl,
      show symbol? (singleQuote :: rest) = none from rfl]
    simp only [Option.none_or, Option.or_none]
  · rw [show word? (doubleQuote :: rest) = none from rfl,
      show number? (doubleQuote :: rest) = none from rfl,
      show quoted? singleQuote (doubleQuote :: rest) = none from rfl,
      show symbol? (doubleQuote :: rest) = none from rfl]
    simp only [Option.none_or, Option.or_none]

end Lexeme

end ExprCheck
