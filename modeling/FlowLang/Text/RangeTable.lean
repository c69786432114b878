/-!
# Classes of characters given by ranges

A class that a standard lists as ranges of code points is kept as a table of such ranges.

* `RangeTable` : inclusive ranges, ascending and separate.
* `RangeTable.has` : a character belongs to the class if some range covers its code point.
-/

namespace FlowLang

namespace Text

/-- Inclusive ranges of code points, in ascending order. -/
abbrev RangeTable := List (Nat × Nat)

/-- Some range of the table covers the code point of `c`. -/
def RangeTable.has (table : RangeTable) (c : Char) : Bool :=
  table.any fun range => range.1 ≤ c.toNat && c.toNat ≤ range.2

theorem RangeTable.has_iff {table : RangeTable} {c : Char} :
    table.has c = true ↔ ∃ range ∈ table, range.1 ≤ c.toNat ∧ c.toNat ≤ range.2 := by
  simp [RangeTable.has]

end Text

end FlowLang
