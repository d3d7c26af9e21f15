/-!
Places in a source, as people count them: lines, and characters within a line, both from 1.
-/

namespace Pushdown.Text

/-- A place in a source. -/
structure Position where
  line : Nat
  column : Nat
deriving DecidableEq, Repr

namespace Position

/-- The beginning of a source. -/
def first : Position := ⟨1, 1⟩

/-- The place after a character. -/
def after (position : Position) (c : Char) : Position :=
  if c = '\n' then ⟨position.line + 1, 1⟩ else ⟨position.line, position.column + 1⟩

/--
The place `bytes` further into a text that starts at `position`, or its end if it is shorter. There is none
inside a character.
-/
def advance? (position : Position) (bytes : Nat) : List Char → Option Position
  | [] => some position
  | c :: cs =>
    if bytes = 0 then some position
    else if c.utf8Size ≤ bytes then (position.after c).advance? (bytes - c.utf8Size) cs
    else none

/-- The place at a byte offset. An offset that is not between two characters stands for the end of the source. -/
def ofOffset (source : String) (offset : Nat) : Position :=
  (first.advance? offset source.toList).getD (source.toList.foldl after first)

end Position

end Pushdown.Text
