/-!
# Positions in a named text

* `Position`: an offset in bytes together with the name of the text it points into.
* `Span`: the stretch from one position to another.

An offset is a 32-bit word, so a text of 2³² bytes or more wraps.
-/

namespace ExprCheck

/-- A place in a named text, counted in bytes from its beginning. -/
structure Position where
  offset : UInt32
  file : String
deriving DecidableEq

/-- The stretch of text from `start` up to, and without, `stop`. -/
structure Span where
  start : Position
  stop : Position
deriving DecidableEq

namespace Position

/-- The position `bytes` into `file`, taken modulo 2³². -/
def ofBytes (file : String) (bytes : Nat) : Position :=
  ⟨UInt32.ofNat bytes, file⟩

end Position

namespace Span

/-- The stretch between two byte counts of one file. -/
def ofBytes (file : String) (start stop : Nat) : Span :=
  ⟨Position.ofBytes file start, Position.ofBytes file stop⟩

/-- The empty stretch at a position. -/
def empty (position : Position) : Span :=
  ⟨position, position⟩

end Span

end ExprCheck
