import Std.Data.ExtTreeMap

/-!
# Positions and ranges

A position is a line and a column, both counted from one and the column in
bytes. A range runs from its start up to, and not including, its end. Both are
ordered lexicographically; nothing forbids a range that is empty or reversed.
-/

namespace Proofline

/-- A line and a column, both counted from one. -/
structure Position where
  line : Nat := 1
  col : Nat := 1
deriving DecidableEq, Repr, Inhabited

namespace Position

/-- Positions are compared by line, and on the same line by column. -/
instance : Ord Position where
  compare := compareLex (compareOn line) (compareOn col)

instance : Std.TransOrd Position :=
  inferInstanceAs (Std.TransCmp (compareLex (compareOn line) (compareOn col)))

instance : Std.LawfulEqOrd Position where
  eq_of_compare {a b} same := by
    cases a
    cases b
    have parts := Ordering.then_eq_eq.mp same
    simp only [compareOn] at parts
    rw [Std.LawfulEqOrd.eq_of_compare parts.1, Std.LawfulEqOrd.eq_of_compare parts.2]

instance : LT Position := ltOfOrd

theorem lt_iff (a b : Position) :
    a < b ↔ a.line < b.line ∨ a.line = b.line ∧ a.col < b.col := by
  change (compareLex (compareOn line) (compareOn col) a b = .lt) ↔ _
  simp [compareLex, compareOn, Ordering.then_eq_lt, Nat.compare_eq_lt]

end Position

/-- The positions from `start` up to, and not including, `stop`. -/
structure Range where
  start : Position
  stop : Position
deriving DecidableEq, Repr, Inhabited

namespace Range

/-- Ranges are compared by start, and with the same start by end. -/
instance : Ord Range where
  compare := compareLex (compareOn start) (compareOn stop)

instance : Std.TransOrd Range :=
  inferInstanceAs (Std.TransCmp (compareLex (compareOn start) (compareOn stop)))

instance : Std.LawfulEqOrd Range where
  eq_of_compare {a b} same := by
    cases a
    cases b
    have parts := Ordering.then_eq_eq.mp same
    simp only [compareOn] at parts
    rw [Std.LawfulEqOrd.eq_of_compare parts.1, Std.LawfulEqOrd.eq_of_compare parts.2]

instance : LT Range := ltOfOrd

theorem lt_iff (a b : Range) :
    a < b ↔ a.start < b.start ∨ a.start = b.start ∧ a.stop < b.stop := by
  change (compareLex (compareOn start) (compareOn stop) a b = .lt) ↔ _
  simp only [compareLex, compareOn, Ordering.then_eq_lt, Std.compare_eq_iff_eq]
  rfl

/-- A position lies in a range when it is not before the start and is before
the end. -/
instance : Membership Position Range where
  mem range position := ¬position < range.start ∧ position < range.stop

instance (position : Position) (range : Range) : Decidable (position ∈ range) :=
  inferInstanceAs (Decidable (¬position < range.start ∧ position < range.stop))

end Range

end Proofline
