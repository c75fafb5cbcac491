/-!
# Ranges of code points

Character properties are kept as lists of closed ranges of code points.  This
file holds the one membership test that all property tables share.
-/

namespace ContentCatalog.Text

/-- A table of closed ranges of code points. -/
abbrev Ranges := List (Nat × Nat)

/-- Some range of the table encloses the code point. -/
def Ranges.mem (table : Ranges) (n : Nat) : Bool :=
  table.any fun range => range.1 ≤ n && n ≤ range.2

end ContentCatalog.Text
