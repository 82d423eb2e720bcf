/-
# The order of the number line and the total order

Comparisons look at positions, and every value but NaN has one (`isNaN_eq_false_iff`).  The total
order refines them (`lessEq_of_atMost`): it only tells the two zeros apart, and puts NaN above
infinity, which is above all that is finite (`isFinite_eq_false_of_atMost`).
-/

import GuildRating.Double.Order

namespace GuildRating
namespace Double

variable {x y z : Double}

/-! ### The number line -/

/-- Every value but NaN lies on the number line. -/
theorem isNaN_eq_false_iff : x.isNaN = false ↔ ∃ a, x.position = some a := by
  cases x with
  | nan => simp [isNaN, position]
  | infinity negative => simp [isNaN, position]
  | finite negative units fits => simp [isNaN, position]

theorem isNaN_of_isFinite (h : x.isFinite = true) : x.isNaN = false := by
  cases x with
  | nan => cases h
  | infinity negative => rfl
  | finite negative units fits => rfl

/-- A value is at most another one if both lie on the number line, and in this order. -/
theorem lessEq_iff : x.lessEq y = true ↔
    ∃ a b, x.position = some a ∧ y.position = some b ∧ a ≤ b := by
  rw [lessEq]
  cases x.position with
  | none => simp
  | some a =>
    cases y.position with
    | none => simp
    | some b => simp

/-- Being at most another value is transitive. -/
theorem lessEq_trans (hxy : x.lessEq y = true) (hyz : y.lessEq z = true) : x.lessEq z = true := by
  obtain ⟨a, b, ha, hb, hab⟩ := lessEq_iff.1 hxy
  obtain ⟨b', c, hb', hc, hbc⟩ := lessEq_iff.1 hyz
  obtain rfl := Option.some.inj (hb.symm.trans hb')
  exact lessEq_iff.2 ⟨a, c, ha, hc, Int.le_trans hab hbc⟩

/-- A value that is at most another one has that one not below it. -/
theorem less_eq_false_of_lessEq (h : x.lessEq y = true) : y.less x = false := by
  obtain ⟨a, b, ha, hb, hab⟩ := lessEq_iff.1 h
  rw [less, ha, hb]
  exact decide_eq_false (Int.not_lt.2 hab)

/-! ### The total order -/

/-- The total order goes by ranks. -/
theorem atMost_iff : x.atMost y = true ↔ x.rank ≤ y.rank := decide_eq_true_iff

theorem atMost_refl (x : Double) : x.atMost x = true := atMost_iff.2 (Int.le_refl _)

/-- The total order is transitive. -/
theorem atMost_trans (hxy : x.atMost y = true) (hyz : y.atMost z = true) : x.atMost z = true :=
  atMost_iff.2 (Int.le_trans (atMost_iff.1 hxy) (atMost_iff.1 hyz))

/-- Of two values one is not above the other. -/
theorem atMost_of_not (h : ¬ x.atMost y = true) : y.atMost x = true := by
  rw [atMost_iff] at h ⊢
  omega

/-- The place in the total order is twice the position, less one for a negative sign. -/
theorem rank_of_position {a : Int} (h : x.position = some a) :
    2 * a - 1 ≤ x.rank ∧ x.rank ≤ 2 * a := by
  cases x with
  | nan => cases h
  | infinity negative =>
    obtain rfl := Option.some.inj h
    cases negative with
    | false =>
      show 2 * (ceiling : Int) - 1 ≤ 2 * ceiling ∧ (2 * ceiling : Int) ≤ 2 * ceiling
      omega
    | true =>
      show 2 * -(ceiling : Int) - 1 ≤ -(2 * ceiling + 1) ∧ -(2 * ceiling + 1 : Int) ≤ 2 * -ceiling
      omega
  | finite negative units fits =>
    obtain rfl := Option.some.inj h
    cases negative with
    | false =>
      show 2 * (units : Int) - 1 ≤ 2 * units ∧ (2 * units : Int) ≤ 2 * units
      omega
    | true =>
      show 2 * -(units : Int) - 1 ≤ -(2 * units + 1) ∧ -(2 * units + 1 : Int) ≤ 2 * -units
      omega

/-- **The total order refines the order of the number line.** -/
theorem lessEq_of_atMost (hx : x.isNaN = false) (hy : y.isNaN = false) (h : x.atMost y = true) :
    x.lessEq y = true := by
  obtain ⟨a, ha⟩ := isNaN_eq_false_iff.1 hx
  obtain ⟨b, hb⟩ := isNaN_eq_false_iff.1 hy
  have := rank_of_position ha
  have := rank_of_position hb
  have := atMost_iff.1 h
  exact lessEq_iff.2 ⟨a, b, ha, hb, by omega⟩

/-- What is not below infinity or NaN in the total order is not finite. -/
theorem isFinite_eq_false_of_atMost (hx : x = infinity false ∨ x = nan) (h : x.atMost y = true) :
    y.isFinite = false := by
  have high : 2 * (ceiling : Int) ≤ x.rank := by
    rcases hx with rfl | rfl
    · exact Int.le_refl _
    · show (2 * ceiling : Int) ≤ 2 * ceiling + 1
      omega
  have above := atMost_iff.1 h
  cases y with
  | nan => rfl
  | infinity negative => rfl
  | finite negative units fits =>
    have below : units < ceiling := fits.1
    have low : (finite negative units fits).rank ≤ 2 * units := by
      cases negative with
      | false => exact Int.le_refl _
      | true =>
        show -(2 * units + 1 : Int) ≤ 2 * units
        omega
    omega

end Double
end GuildRating
