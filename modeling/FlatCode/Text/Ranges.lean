/-!
# Sets of characters given by ranges

A Unicode property is kept as an ascending list of closed ranges of code points. The tables of
this library (`Letter`, `Digit`, `Printable`) are values of this type, so one membership test and
its lemma serve all of them.
-/

namespace FlatCode.Text

/-- Closed ranges of code points. -/
abbrev Ranges := List (Nat × Nat)

/-- Whether a code point lies in one of the ranges. -/
def Ranges.contains (ranges : Ranges) (n : Nat) : Bool :=
  ranges.any fun range => range.1 ≤ n && n ≤ range.2

theorem Ranges.contains_iff (ranges : Ranges) (n : Nat) :
    ranges.contains n = true ↔ ∃ range ∈ ranges, range.1 ≤ n ∧ n ≤ range.2 := by
  simp [Ranges.contains]

end FlatCode.Text
