import Mathlib.Data.List.Nodup
import ExprCheck.Log

/-!
# What a line of the log tells

* `Text.IsWord`: a text without blanks. Where the first or the last word of a text ends can be told
  from the text.
* `LogEntry.lead`: the first word of what is said of an event, by which one kind of event is told
  from another.
* `LogEntry.line_injective`: the events are told by their lines.
-/

namespace ExprCheck

namespace Text

/-- A text without blanks. -/
def IsWord (text : String) : Prop :=
  ' ' ∉ text.toList

instance (text : String) : Decidable (IsWord text) :=
  inferInstanceAs (Decidable (¬ _))

theorem split_at_blank {front front' rest rest' : List Char} (h : ' ' ∉ front) (h' : ' ' ∉ front')
    (eq : front ++ ' ' :: rest = front' ++ ' ' :: rest') : front = front' ∧ rest = rest' := by
  induction front generalizing front' with
  | nil =>
    cases front' with
    | nil => exact ⟨rfl, (List.cons.inj eq).2⟩
    | cons c front' =>
      obtain ⟨rfl, -⟩ := List.cons.inj eq
      exact absurd (.head _) h'
  | cons c front ih =>
    cases front' with
    | nil =>
      obtain ⟨rfl, -⟩ := List.cons.inj eq
      exact absurd (.head _) h
    | cons c' front' =>
      obtain ⟨rfl, later⟩ := List.cons.inj eq
      obtain ⟨rfl, rfl⟩ := ih (mt (.tail _) h) (mt (.tail _) h') later
      exact ⟨rfl, rfl⟩

variable {word word' rest rest' : String}

theorem split_first (h : IsWord word) (h' : IsWord word')
    (eq : word ++ " " ++ rest = word' ++ " " ++ rest') : word = word' ∧ rest = rest' := by
  have chars := congrArg String.toList eq
  simp only [String.toList_append, List.append_assoc] at chars
  obtain ⟨same, later⟩ := split_at_blank h h' chars
  exact ⟨String.toList_inj.1 same, String.toList_inj.1 later⟩

theorem split_last (h : IsWord word) (h' : IsWord word')
    (eq : rest ++ " " ++ word = rest' ++ " " ++ word') : rest = rest' ∧ word = word' := by
  have chars := congrArg (fun text => text.toList.reverse) eq
  simp only [String.toList_append, List.append_assoc, List.reverse_append] at chars
  obtain ⟨same, later⟩ := split_at_blank (mt List.mem_reverse.1 h) (mt List.mem_reverse.1 h') chars
  exact ⟨String.toList_inj.1 (List.reverse_inj.1 later),
    String.toList_inj.1 (List.reverse_inj.1 same)⟩

theorem toString_injective {number number' : Nat} (eq : toString number = toString number') :
    number = number' := by
  have digits : Nat.toDigits 10 number = Nat.toDigits 10 number' := String.ofList_inj.1 eq
  rw [← Nat.ofDigitChars_ten_toDigits (n := number), digits, Nat.ofDigitChars_ten_toDigits]

end Text

open Text

/-! ### Names -/

theorem TokenKind.isWord_name (kind : TokenKind) : IsWord kind.name := by
  cases kind <;> decide

theorem TokenKind.name_injective {kind kind' : TokenKind} (eq : kind.name = kind'.name) :
    kind = kind' := by
  have distinct : (all.map name).Nodup := by decide +kernel
  exact List.inj_on_of_nodup_map distinct (mem_all kind) (mem_all kind') eq

theorem Ty.isWord_name (ty : Ty) : IsWord ty.name := by
  cases ty <;> decide

/-- No type is called by a word that another message begins with. -/
theorem Ty.name_ne (ty : Ty) : ty.name ≠ "nud" ∧ ty.name ≠ "parsed" ∧ ty.name ≠ "type" := by
  cases ty <;> decide

theorem Ty.name_injective {ty ty' : Ty} (eq : ty.name = ty'.name) : ty = ty' := by
  revert eq
  cases ty <;> cases ty' <;> decide

/-! ### Events -/

namespace LogEntry

/-- The first word of what the log says of an event. -/
def lead : LogEntry → String
  | operand .. => "nud"
  | program .. => "parsed"
  | operator left .. => left.name
  | checked .. => "type"

/-- What the log says of an event behind the first word. -/
def details : LogEntry → String
  | operand kind offset => kind.name ++ " " ++ ("at " ++ toString offset.toNat)
  | program size => toString size ++ " top-level expressions"
  | operator _ text right result => text ++ " " ++ right.name ++ " ->" ++ " " ++ result.name
  | checked ty => "checked tree as " ++ ty.name

theorem message_eq (entry : LogEntry) : entry.message = entry.lead ++ " " ++ entry.details := by
  -- The literals have to be cut at their blanks before the texts can be compared part by part.
  cases entry with
  | operand kind offset =>
    have first : "nud" ++ " " = "nud " := by decide
    have last : " " ++ "at " = " at " := by decide
    show "nud " ++ kind.name ++ " at " ++ toString offset.toNat =
      "nud" ++ " " ++ (kind.name ++ " " ++ ("at " ++ toString offset.toNat))
    rw [← first, ← last]
    simp only [String.append_assoc, -String.reduceAppend]
  | program size =>
    have first : "parsed" ++ " " = "parsed " := by decide
    show "parsed " ++ toString size ++ " top-level expressions" =
      "parsed" ++ " " ++ (toString size ++ " top-level expressions")
    rw [first, String.append_assoc]
  | operator left text right result =>
    have last : " ->" ++ " " = " -> " := by decide
    show left.name ++ " " ++ text ++ " " ++ right.name ++ " -> " ++ result.name =
      left.name ++ " " ++ (text ++ " " ++ right.name ++ " ->" ++ " " ++ result.name)
    rw [← last]
    simp only [String.append_assoc, -String.reduceAppend]
  | checked ty =>
    have first : "type" ++ " " ++ "checked tree as " = "type checked tree as " := by decide
    show "type checked tree as " ++ ty.name = "type" ++ " " ++ ("checked tree as " ++ ty.name)
    rw [← String.append_assoc, first]

theorem isWord_lead (entry : LogEntry) : IsWord entry.lead := by
  cases entry with
  | operand => exact show IsWord "nud" by decide
  | program => exact show IsWord "parsed" by decide
  | operator left => exact left.isWord_name
  | checked => exact show IsWord "type" by decide

theorem isWord_level (entry : LogEntry) : IsWord entry.level := by
  cases entry with
  | operand | operator => exact show IsWord "TRACE" by decide
  | program | checked => exact show IsWord "DEBUG" by decide

/-- The events are told by what the log says of them. -/
theorem eq_of_message {entry other : LogEntry} (eq : entry.message = other.message) :
    entry = other := by
  rw [message_eq, message_eq] at eq
  obtain ⟨lead, details⟩ := split_first entry.isWord_lead other.isWord_lead eq
  cases entry with
  | operand kind offset =>
    cases other with
    | operand kind' offset' =>
      obtain ⟨sameName, place⟩ := split_first kind.isWord_name kind'.isWord_name details
      have sameOffset := toString_injective ((String.append_right_inj _).1 place)
      rw [TokenKind.name_injective sameName, UInt32.toNat_inj.1 sameOffset]
    | program => exact absurd lead (show "nud" ≠ "parsed" by decide)
    | operator left => exact absurd lead.symm left.name_ne.1
    | checked => exact absurd lead (show "nud" ≠ "type" by decide)
  | program size =>
    cases other with
    | operand => exact absurd lead (show "parsed" ≠ "nud" by decide)
    | program size' => rw [toString_injective ((String.append_left_inj _).1 details)]
    | operator left => exact absurd lead.symm left.name_ne.2.1
    | checked => exact absurd lead (show "parsed" ≠ "type" by decide)
  | operator left text right result =>
    cases other with
    | operand => exact absurd lead left.name_ne.1
    | program => exact absurd lead left.name_ne.2.1
    | operator left' text' right' result' =>
      obtain ⟨front, sameResult⟩ := split_last result.isWord_name result'.isWord_name details
      obtain ⟨rfl, sameRight⟩ :=
        split_last right.isWord_name right'.isWord_name ((String.append_left_inj _).1 front)
      rw [Ty.name_injective lead, Ty.name_injective sameRight, Ty.name_injective sameResult]
    | checked => exact absurd lead left.name_ne.2.2
  | checked ty =>
    cases other with
    | operand => exact absurd lead (show "type" ≠ "nud" by decide)
    | program => exact absurd lead (show "type" ≠ "parsed" by decide)
    | operator left => exact absurd lead.symm left.name_ne.2.2
    | checked ty' => rw [Ty.name_injective ((String.append_right_inj _).1 details)]

/-- **The events are told by their lines.** -/
theorem line_injective : Function.Injective line := by
  intro entry other eq
  exact eq_of_message (split_first entry.isWord_level other.isWord_level eq).2

end LogEntry

end ExprCheck
