import ExprCheck.Diagnostic.Basic
import ExprCheck.Token.Kind
import ExprCheck.Ty

/-!
# What reading and checking a program writes to the log

* `LogEntry`: an event worth a line in the log.
* `LogEntry.line`: that line, the level before the message.
* `Logged`: an outcome together with what was logged on the way to it. What was logged before a
  failure stays.
-/

namespace ExprCheck

/-- An event worth a line in the log. -/
inductive LogEntry where
  /-- A token of this kind, at this offset, starts an expression. -/
  | operand (kind : TokenKind) (offset : UInt32)
  /-- A program was read, with so many expressions. -/
  | program (size : Nat)
  /-- An operator was found to take operands of these types and to give the last one. -/
  | operator (left : Ty) (text : String) (right result : Ty)
  /-- A whole tree was found to have this type. -/
  | checked (ty : Ty)
deriving DecidableEq

namespace LogEntry

/-- How much an event matters. -/
def level : LogEntry → String
  | operand .. | operator .. => "TRACE"
  | program .. | checked .. => "DEBUG"

/-- What the log says of an event. -/
def message : LogEntry → String
  | operand kind offset => "nud " ++ kind.name ++ " at " ++ toString offset.toNat
  | program size => "parsed " ++ toString size ++ " top-level expressions"
  | operator left text right result =>
    left.name ++ " " ++ text ++ " " ++ right.name ++ " -> " ++ result.name
  | checked ty => "type checked tree as " ++ ty.name

/-- The line for an event. -/
def line (entry : LogEntry) : String :=
  entry.level ++ " " ++ entry.message

theorem line_operand (kind : TokenKind) (offset : UInt32) :
    (operand kind offset).line =
      "TRACE nud " ++ kind.name ++ " at " ++ toString offset.toNat := by
  show "TRACE" ++ " " ++ ("nud " ++ kind.name ++ " at " ++ toString offset.toNat) = _
  simp only [← String.append_assoc, String.reduceAppend]

theorem line_program (size : Nat) :
    (program size).line = "DEBUG parsed " ++ toString size ++ " top-level expressions" := by
  show "DEBUG" ++ " " ++ ("parsed " ++ toString size ++ " top-level expressions") = _
  simp only [← String.append_assoc, String.reduceAppend]

theorem line_operator (left : Ty) (text : String) (right result : Ty) :
    (operator left text right result).line =
      "TRACE " ++ left.name ++ " " ++ text ++ " " ++ right.name ++ " -> " ++ result.name := by
  show "TRACE" ++ " " ++
    (left.name ++ " " ++ text ++ " " ++ right.name ++ " -> " ++ result.name) = _
  simp only [← String.append_assoc, String.reduceAppend]

theorem line_checked (ty : Ty) : (checked ty).line = "DEBUG type checked tree as " ++ ty.name := by
  show "DEBUG" ++ " " ++ ("type checked tree as " ++ ty.name) = _
  simp only [← String.append_assoc, String.reduceAppend]

end LogEntry

/-- An outcome and what was logged on the way to it. -/
structure Logged (α : Type) where
  log : List LogEntry
  result : Except Diagnostic α

namespace Logged

variable {α β : Type}

/-- An outcome that nothing was logged for. -/
def ofExcept (result : Except Diagnostic α) : Logged α :=
  ⟨[], result⟩

/-- Logs one event. -/
def write (entry : LogEntry) : Logged Unit :=
  ⟨[entry], .ok ()⟩

/-- Goes on after a success. A failure ends the work and keeps what was logged. -/
def andThen (first : Logged α) (next : α → Logged β) : Logged β :=
  match first.result with
  | .ok value => ⟨first.log ++ (next value).log, (next value).result⟩
  | .error diagnostic => ⟨first.log, .error diagnostic⟩

instance : Monad Logged where
  pure value := ⟨[], .ok value⟩
  bind := andThen

theorem result_pure (value : α) : (pure value : Logged α).result = .ok value :=
  rfl

theorem result_ofExcept (result : Except Diagnostic α) : (ofExcept result).result = result :=
  rfl

/-- The outcome of two steps is that of the second, run on the outcome of the first. -/
theorem result_bind (first : Logged α) (next : α → Logged β) :
    (first >>= next).result = first.result >>= fun value => (next value).result := by
  obtain ⟨log, result⟩ := first
  cases result <;> rfl

theorem log_pure (value : α) : (pure value : Logged α).log = [] :=
  rfl

/-- After a success, the log of two steps is the one log after the other. -/
theorem log_bind_of_ok {first : Logged α} {value : α} (next : α → Logged β)
    (h : first.result = .ok value) : (first >>= next).log = first.log ++ (next value).log := by
  obtain ⟨log, result⟩ := first
  subst h
  rfl

end Logged

end ExprCheck
