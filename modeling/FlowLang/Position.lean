/-!
# Positions in a source text

A position is a line and a column, both counted from 1; columns count characters.
-/

namespace FlowLang

/-- A place in a source text. -/
structure Position where
  /-- The line, counted from 1. -/
  line : Nat
  /-- The character within the line, counted from 1. -/
  column : Nat
deriving DecidableEq, Repr

namespace Position

/-- Written as `line:column`. -/
def text (p : Position) : String := s!"{p.line}:{p.column}"

end Position

end FlowLang
