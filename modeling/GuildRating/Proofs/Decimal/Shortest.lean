/-
# The shortest decimal reads back

A decimal reads as the double nearest to its value, and the short cuts for huge and tiny exponents
change nothing (`toDouble_eq_ofQuotient`).  So moving zeros between the digits and the exponent is
harmless (`toDouble_shift`), and the shortest decimal of a double, whatever grid it was found on,
reads back as that double (`toDouble_shortest`).
-/

import GuildRating.Decimal.Shortest
import GuildRating.Proofs.Double.Quotient

namespace GuildRating
namespace Decimal

open Double (unitsPerOne ceiling ofQuotient)

variable {negative : Bool}

/-- The decimal in units, as a quotient. -/
def numerator (x : Decimal) : Nat := x.digits * 10 ^ x.exponent.toNat * unitsPerOne

/-- What the decimal in units is divided by. -/
def denominator (x : Decimal) : Nat := 10 ^ (-x.exponent).toNat

theorem denominator_pos (x : Decimal) : 0 < x.denominator := Nat.pow_pos (by decide)

/-- A comparison of powers by their exponents, as `2 ^ 93` is below `10 ^ 28`. -/
theorem two_pow_le_ten_pow {m n : Nat} (h : 28 * m ≤ 93 * n) : 2 ^ m ≤ 10 ^ n := by
  have step : (2 ^ m) ^ 28 ≤ (10 ^ n) ^ 28 :=
    calc (2 ^ m) ^ 28 = 2 ^ (28 * m) := by rw [← Nat.pow_mul, Nat.mul_comm]
      _ ≤ 2 ^ (93 * n) := Nat.pow_le_pow_right (by decide) h
      _ = (2 ^ 93) ^ n := Nat.pow_mul ..
      _ ≤ (10 ^ 28) ^ n := Nat.pow_le_pow_left (by decide) n
      _ = (10 ^ n) ^ 28 := by rw [← Nat.pow_mul, ← Nat.pow_mul, Nat.mul_comm]
  exact (Nat.pow_le_pow_iff_left (by decide)).1 step

/-- The units of one, as a power of two with an exponent that nothing evaluates. -/
theorem exists_unitsPerOne_eq : ∃ p, p = 1074 ∧ unitsPerOne = 2 ^ p := by
  refine ⟨1074, rfl, ?_⟩
  unfold unitsPerOne
  generalize 1074 = p
  exact Nat.pow_eq

/-- The ceiling in the same way. -/
theorem exists_ceiling_eq : ∃ k, k = 1024 ∧ ceiling = 2 ^ k * unitsPerOne := by
  obtain ⟨p, hp, hu⟩ := exists_unitsPerOne_eq
  obtain ⟨k, hk⟩ : ∃ k, k = 1024 := ⟨_, rfl⟩
  have sum : 2098 = k + p := by omega
  refine ⟨k, hk, ?_⟩
  unfold ceiling
  rw [sum, hu, Nat.pow_eq, Nat.pow_add]

/-- From `10 ^ 310` on a decimal reaches the ceiling. -/
theorem ceiling_le_numerator {x : Decimal} (hd : x.digits ≠ 0) (he : 310 ≤ x.exponent) :
    ceiling * x.denominator ≤ x.numerator := by
  obtain ⟨k, hk, hc⟩ := exists_ceiling_eq
  have hden : x.denominator = 1 := by
    rw [denominator, show (-x.exponent).toNat = 0 by omega, Nat.pow_zero]
  rw [hden, Nat.mul_one, hc, numerator]
  refine Nat.mul_le_mul_right _ ?_
  calc 2 ^ k ≤ 10 ^ x.exponent.toNat := two_pow_le_ten_pow (by omega)
    _ ≤ x.digits * 10 ^ x.exponent.toNat := Nat.le_mul_of_pos_left _ (Nat.pos_of_ne_zero hd)

/-- Below `10 ^ (-330)` a decimal is less than half a unit. -/
theorem numerator_lt {x : Decimal} (he : x.exponent + x.digits.log2 + 1 ≤ -330) :
    2 * x.numerator < x.denominator := by
  obtain ⟨p, hp, hu⟩ := exists_unitsPerOne_eq
  have hnum : x.numerator = x.digits * 2 ^ p := by
    rw [numerator, show x.exponent.toNat = 0 by omega, Nat.pow_zero, Nat.mul_one, hu]
  have hdigits : x.digits < 2 ^ (x.digits.log2 + 1) := Nat.lt_log2_self
  calc 2 * x.numerator = x.digits * 2 ^ (p + 1) := by
        rw [hnum, Nat.mul_left_comm, ← Nat.pow_succ']
    _ < 2 ^ (x.digits.log2 + 1) * 2 ^ (p + 1) :=
        Nat.mul_lt_mul_of_pos_right hdigits (Nat.two_pow_pos _)
    _ = 2 ^ (x.digits.log2 + 1 + (p + 1)) := (Nat.pow_add ..).symm
    _ ≤ 10 ^ (-x.exponent).toNat := two_pow_le_ten_pow (by omega)

/-- **A decimal reads as the nearest double**, whatever its size. -/
theorem toDouble_eq_ofQuotient (x : Decimal) :
    x.toDouble negative = ofQuotient negative x.numerator x.denominator := by
  rw [toDouble]
  split
  · next hd =>
    have hnum : x.numerator = 0 := by rw [numerator, hd, Nat.zero_mul, Nat.zero_mul]
    rw [hnum]
    exact (Double.ofQuotient_of_small x.denominator_pos).symm
  · next hd =>
    split
    · next he =>
      exact (Double.ofQuotient_of_ceiling_le x.denominator_pos (ceiling_le_numerator hd he)).symm
    · split
      · next he => exact (Double.ofQuotient_of_small (numerator_lt he)).symm
      · split
        · next he =>
          rw [numerator, denominator, show (-x.exponent).toNat = 0 by omega, Nat.pow_zero,
            Nat.pow_eq, show x.exponent.toNat = x.exponent.natAbs by omega]
        · next he =>
          rw [numerator, denominator, show x.exponent.toNat = 0 by omega, Nat.pow_zero, Nat.mul_one,
            Nat.pow_eq, show (-x.exponent).toNat = x.exponent.natAbs by omega]

/-- **Zeros may move between the digits and the exponent.** -/
theorem toDouble_shift (digits k : Nat) (exponent : Int) :
    toDouble negative ⟨digits * 10 ^ k, exponent⟩ = toDouble negative ⟨digits, exponent + k⟩ := by
  rw [toDouble_eq_ofQuotient, toDouble_eq_ofQuotient]
  refine Double.ofQuotient_congr (denominator_pos _) (denominator_pos _) ?_
  have same : k + exponent.toNat + (-(exponent + k)).toNat =
      (exponent + k).toNat + (-exponent).toNat := by omega
  simp only [numerator, denominator]
  generalize unitsPerOne = u
  calc digits * 10 ^ k * 10 ^ exponent.toNat * u * 10 ^ (-(exponent + k)).toNat
      = digits * u * 10 ^ (k + exponent.toNat + (-(exponent + k)).toNat) := by
        rw [Nat.pow_add, Nat.pow_add]
        ac_rfl
    _ = digits * 10 ^ (exponent + k).toNat * u * 10 ^ (-exponent).toNat := by
        rw [same, Nat.pow_add]
        ac_rfl

/-- Taking zeros off the end of a decimal leaves its double as it is. -/
theorem toDouble_trim (digits : Nat) (exponent : Int) :
    (trim digits exponent).toDouble negative = toDouble negative ⟨digits, exponent⟩ := by
  induction digits, exponent using trim.induct with
  | case1 digits exponent h ih =>
    rw [trim, dif_pos h, ih]
    have shift := @toDouble_shift negative (digits / 10) 1 exponent
    rw [Nat.pow_one, Nat.div_mul_cancel (Nat.dvd_of_mod_eq_zero h.2)] at shift
    exact shift.symm
  | case2 digits exponent h => rw [trim, dif_neg h]

variable {units : Nat}

/-- The full expansion of a magnitude reads back. -/
theorem toDouble_expansion (fits : Double.Representable units) :
    (expansion units).toDouble negative = .finite negative units fits := by
  obtain ⟨p, hp, hu⟩ := exists_unitsPerOne_eq
  have hx : expansion units = ⟨units * 5 ^ p, -(p : Int)⟩ := by
    have hexp : (-1074 : Int) = -(p : Int) := by omega
    rw [expansion, hexp, ← hp, Nat.pow_eq]
  rw [toDouble_eq_ofQuotient, ← Double.ofQuotient_of_representable fits]
  refine Double.ofQuotient_congr (denominator_pos _) Nat.one_pos ?_
  rw [hx, numerator, denominator, hu]
  dsimp only
  rw [show (-(p : Int)).toNat = 0 by omega, show (-(-(p : Int))).toNat = p by omega, Nat.pow_zero,
    Nat.mul_one, Nat.mul_one, Nat.mul_assoc, ← Nat.mul_pow]

/-- What was accepted as reading back does so. -/
theorem toDouble_of_readsAs (fits : Double.Representable units) {x : Decimal}
    (h : readsAs units x = true) : x.toDouble false = .finite false units fits := by
  rw [readsAs] at h
  have sign := @toDouble_eq_ofQuotient false x
  generalize x.toDouble false = value at *
  cases value with
  | nan => cases h
  | infinity s => cases h
  | finite s n fits' =>
    obtain rfl : n = units := of_decide_eq_true h
    obtain rfl : s = false := Double.sign_of_ofQuotient sign.symm
    rfl

/-- Of two decimals that are tried in turn, the one that is taken reads back. -/
theorem readsAs_of_first {first second x : Decimal}
    (h : (if readsAs units first then some first
      else if readsAs units second then some second else none) = some x) :
    readsAs units x = true := by
  split at h
  · next hx =>
    cases h
    exact hx
  · split at h
    · next hx =>
      cases h
      exact hx
    · cases h

/-- What is found on a grid reads as the double it was looked for. -/
theorem readsAs_of_atExponent? {tie : Tie} {exponent : Int} {x : Decimal}
    (h : atExponent? tie units exponent = some x) : readsAs units x = true := by
  unfold atExponent? at h
  exact readsAs_of_first h

/-- **What the search for the shortest decimal ends with reads back**, even if it ends with the last
grid. -/
theorem toDouble_searchFrom (fits : Double.Representable units) (tie : Tie) (exponent : Int)
    (grids : Nat) :
    (searchFrom tie units exponent grids).toDouble false = .finite false units fits := by
  induction grids generalizing exponent with
  | zero => exact toDouble_expansion fits
  | succ grids ih =>
    rw [searchFrom]
    split
    · next x hx => exact toDouble_of_readsAs fits (readsAs_of_atExponent? hx)
    · exact ih (exponent - 1)

/-- **The shortest decimal reads back** as the double it was found for. -/
theorem toDouble_shortest (fits : Double.Representable units) (tie : Tie) :
    (shortest tie units).toDouble false = .finite false units fits := by
  rw [shortest]
  split
  · next hzero =>
    subst hzero
    rfl
  · rw [toDouble_trim]
    exact toDouble_searchFrom fits tie _ _

end Decimal
end GuildRating
