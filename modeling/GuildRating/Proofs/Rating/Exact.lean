/-
# Numbers without rounding

An `Exact` number is a fraction, or it is not finite and then has no value.  Its operations are
those of fractions; an operation on what is not finite, and a division by zero, are not finite.
`Double.exact` reads a double as the fraction that it denotes.  The reading forgets nothing that a
weight is asked for: whether it is finite, where it lies beside another one, and which of several is
the largest (`isWeight_exact`, `less_exact`, `larger_exact`).
-/

import Mathlib.Algebra.Order.Field.Rat
import Mathlib.Algebra.Order.Field.Basic
import Mathlib.Data.Rat.Cast.Order
import GuildRating.Rating.Mean

namespace GuildRating

/-- A fraction, or a number that is not finite and has no value. -/
inductive Exact where
  | fraction (value : ℚ)
  | notFinite
deriving DecidableEq

namespace Exact

/-- The sum of two fractions. -/
protected def add : Exact → Exact → Exact
  | fraction x, fraction y => fraction (x + y)
  | _, _ => notFinite

/-- The product of two fractions. -/
protected def mul : Exact → Exact → Exact
  | fraction x, fraction y => fraction (x * y)
  | _, _ => notFinite

/-- The quotient of two fractions, which is not finite if the second is zero. -/
protected def div : Exact → Exact → Exact
  | fraction x, fraction y => if y = 0 then notFinite else fraction (x / y)
  | _, _ => notFinite

instance : Quantity Exact where
  zero := fraction 0
  add := Exact.add
  mul := Exact.mul
  div := Exact.div
  less
    | fraction x, fraction y => x < y
    | _, _ => false
  isFinite
    | fraction _ => true
    | notFinite => false

theorem zero_eq : (0 : Exact) = fraction 0 := rfl

@[simp] theorem fraction_add (x y : ℚ) : fraction x + fraction y = fraction (x + y) := rfl

@[simp] theorem fraction_mul (x y : ℚ) : fraction x * fraction y = fraction (x * y) := rfl

/-- Only a division by zero has no value. -/
theorem fraction_div (x : ℚ) {y : ℚ} (h : y ≠ 0) : fraction x / fraction y = fraction (x / y) :=
  if_neg h

@[simp] theorem less_fraction (x y : ℚ) :
    Quantity.less (fraction x) (fraction y) = decide (x < y) := rfl

/-- A fraction is a weight if it is not negative. -/
theorem isWeight_fraction (x : ℚ) : Quantity.isWeight (fraction x) = decide (0 ≤ x) := by
  show (!decide (x < 0)) = decide (0 ≤ x)
  rw [← decide_not, decide_eq_decide, not_lt]

/-- A weight is a fraction that is not below zero. -/
theorem isWeight_iff {x : Exact} : Quantity.isWeight x = true ↔ ∃ q, x = fraction q ∧ 0 ≤ q := by
  cases x with
  | notFinite => exact ⟨fun h => absurd h Bool.false_ne_true, fun ⟨_, h, _⟩ => by cases h⟩
  | fraction q =>
    rw [isWeight_fraction, decide_eq_true_eq]
    constructor
    · intro h
      exact ⟨q, rfl, h⟩
    · rintro ⟨_, same, h⟩
      cases same
      exact h

/-- What is no weight has no value or is a negative fraction. -/
theorem isWeight_eq_false_iff {x : Exact} :
    Quantity.isWeight x = false ↔ x = notFinite ∨ ∃ q < 0, x = fraction q := by
  cases x with
  | notFinite => exact ⟨fun _ => .inl rfl, fun _ => rfl⟩
  | fraction q => simp [isWeight_fraction]

/-- A factor above zero makes a weight of a weight and of nothing else. -/
theorem isWeight_mul {factor : ℚ} (h : 0 < factor) (x : Exact) :
    Quantity.isWeight (fraction factor * x) = Quantity.isWeight x := by
  cases x with
  | notFinite => rfl
  | fraction q =>
    rw [fraction_mul, isWeight_fraction, isWeight_fraction, decide_eq_decide,
      mul_nonneg_iff_of_pos_left h]

/-- The larger of two fractions is their maximum. -/
theorem larger_fraction (x y : ℚ) :
    Mean.larger (fraction x) (fraction y) = fraction (max x y) := by
  rw [Mean.larger, less_fraction]
  by_cases h : x < y
  · rw [if_pos (decide_eq_true h), max_eq_right h.le]
  · rw [if_neg (by simpa using h), max_eq_left (not_lt.1 h)]

end Exact

namespace Double

/-- The fraction that a double denotes. -/
def exact : Double → Exact
  | nan => .notFinite
  | infinity _ => .notFinite
  | finite negative units _ => .fraction ((signed negative units : ℤ) / unitsPerOne)

theorem zero_exact : (0 : Double).exact = 0 := by
  show Exact.fraction (((0 : ℤ) : ℚ) / unitsPerOne) = .fraction 0
  rw [Int.cast_zero, zero_div]

variable {x y : Double}

/-- A double that denotes a fraction is finite. -/
theorem isFinite_of_exact {q : ℚ} (h : x.exact = .fraction q) : x.isFinite = true := by
  cases x with
  | nan => cases h
  | infinity _ => cases h
  | finite _ _ _ => rfl

/-- Finite doubles lie as the fractions do that they denote. -/
theorem less_exact (hx : x.isFinite = true) (hy : y.isFinite = true) :
    Quantity.less x.exact y.exact = x.less y := by
  cases x with
  | nan => cases hx
  | infinity _ => cases hx
  | finite s m _ =>
    cases y with
    | nan => cases hy
    | infinity _ => cases hy
    | finite t n _ =>
      have hunits : (0 : ℚ) < unitsPerOne := Nat.cast_pos.2 unitsPerOne_pos
      rw [exact, exact, Exact.less_fraction, less, position, position, decide_eq_decide,
        div_lt_div_iff_of_pos_right hunits, Int.cast_lt]

/-- A double is a weight if its fraction is one. -/
theorem isWeight_exact (x : Double) : Quantity.isWeight x.exact = Quantity.isWeight x := by
  cases x with
  | nan => rfl
  | infinity _ => rfl
  | finite s m fits =>
    have less := @less_exact (finite s m fits) 0 rfl rfl
    rw [zero_exact] at less
    rw [Quantity.isWeight, Quantity.isWeight, less]
    rfl

/-- The larger of two finite doubles denotes the larger of their fractions. -/
theorem larger_exact (hx : x.isFinite = true) (hy : y.isFinite = true) :
    (Mean.larger x y).exact = Mean.larger x.exact y.exact := by
  have unfolded : Mean.larger x y = if x.less y then y else x := rfl
  rw [unfolded, Mean.larger, less_exact hx hy]
  exact apply_ite exact _ _ _

end Double
end GuildRating
