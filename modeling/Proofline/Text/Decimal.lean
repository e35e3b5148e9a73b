/-!
# Decimal numerals

Unsigned and signed numerals over the ten ASCII digits. A numeral is the whole
text: blanks, plus signs and other digits make it unreadable. Leading zeros
are allowed.
-/

namespace Proofline.Decimal

/-- The value of a run of decimal digits. -/
def value (digits : List Char) : Nat :=
  digits.foldl (fun total digit => 10 * total + (digit.toNat - '0'.toNat)) 0

/-- The number denoted by a nonempty run of digits. -/
def natural? (text : List Char) : Option Nat :=
  if text ≠ [] ∧ text.all Char.isDigit then some (value text) else none

/-- The number denoted by a nonempty run of digits, possibly behind a minus
sign. -/
def integer? : List Char → Option Int
  | '-' :: rest => (natural? rest).map fun magnitude => -(magnitude : Int)
  | text => (natural? text).map fun magnitude => (magnitude : Int)

/-- Whether a text is a nonempty run of decimal digits. -/
def IsNumeral (text : List Char) : Prop :=
  text ≠ [] ∧ ∀ c ∈ text, c.isDigit = true

theorem natural?_eq_some_iff {text : List Char} {number : Nat} :
    natural? text = some number ↔ IsNumeral text ∧ value text = number := by
  unfold natural?
  split
  · rename_i readable
    simp_all [IsNumeral, List.all_eq_true]
  · rename_i unreadable
    simp only [reduceCtorEq, false_iff]
    intro reading
    exact unreadable ⟨reading.1.1, List.all_eq_true.mpr reading.1.2⟩

theorem isNumeral_repr (number : Nat) : IsNumeral (Nat.repr number).toList := by
  rw [Nat.toList_repr]
  exact ⟨Nat.toDigits_ne_nil, fun _ mem =>
    Nat.isDigit_of_mem_toDigits (by decide) (by decide) mem⟩

/-- Reading the numeral of a number gives the number. -/
theorem value_repr (number : Nat) : value (Nat.repr number).toList = number := by
  rw [Nat.toList_repr, value, ← Nat.ofDigitChars_eq_foldl]
  exact Nat.ofDigitChars_toDigits (by decide) (by decide)

end Proofline.Decimal
