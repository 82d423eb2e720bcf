/-
# Rounding looks at the value of a quotient

`Double.ofQuotient` rounds the number `num / den` and not the two numbers it is written with:
equal quotients round alike (`ofQuotient_congr`).  A magnitude of the format is its own rounding,
what reaches the ceiling is infinite, and what is below half a unit is zero.
-/

import Mathlib
import GuildRating.Double.Rounding

namespace GuildRating
namespace Double

variable {num den num' den' k n : Nat} {negative : Bool}

/-- A common factor does not change how a quotient is rounded. -/
theorem roundDiv_mul_left (h : 0 < k) : roundDiv (k * num) (k * den) = roundDiv num den := by
  rw [roundDiv, roundDiv]
  simp only [Nat.mul_div_mul_left num den h, Nat.mul_mod_mul_left, Nat.mul_left_comm 2 k,
    Nat.mul_lt_mul_left h]

/-- Equal quotients are brought to one denominator. -/
theorem cross_eq (h : num * den' = num' * den) : den' * num = den * num' := by
  rw [Nat.mul_comm den', h, Nat.mul_comm]

/-- Equal quotients are rounded alike to whole numbers. -/
theorem roundDiv_congr (hden : 0 < den) (hden' : 0 < den') (h : num * den' = num' * den) :
    roundDiv num den = roundDiv num' den' :=
  calc roundDiv num den = roundDiv (den' * num) (den' * den) := (roundDiv_mul_left hden').symm
    _ = roundDiv (den * num') (den * den') := by rw [cross_eq h, Nat.mul_comm den' den]
    _ = roundDiv num' den' := roundDiv_mul_left hden

/-- Equal quotients have the same whole part. -/
theorem div_congr (hden : 0 < den) (hden' : 0 < den') (h : num * den' = num' * den) :
    num / den = num' / den' :=
  calc num / den = den' * num / (den' * den) := (Nat.mul_div_mul_left num den hden').symm
    _ = den * num' / (den * den') := by rw [cross_eq h, Nat.mul_comm den' den]
    _ = num' / den' := Nat.mul_div_mul_left num' den' hden

/-- Equal quotients are rounded alike to 53 bits. -/
theorem roundUnits_congr (hden : 0 < den) (hden' : 0 < den') (h : num * den' = num' * den) :
    roundUnits num den = roundUnits num' den' := by
  rw [roundUnits, roundUnits, div_congr hden hden' h]
  have spacing : 0 < Nat.pow 2 (excess (num' / den')) := Nat.two_pow_pos _
  refine congrArg (· * _) (roundDiv_congr (Nat.mul_pos hden spacing) (Nat.mul_pos hden' spacing) ?_)
  rw [← Nat.mul_assoc, h, Nat.mul_assoc]

/-- **Equal quotients round alike.** -/
theorem ofQuotient_congr (hden : 0 < den) (hden' : 0 < den') (h : num * den' = num' * den) :
    ofQuotient negative num den = ofQuotient negative num' den' := by
  unfold ofQuotient
  simp only [roundUnits_congr hden hden' h]

/-- A finite quotient keeps the sign it was given. -/
theorem sign_of_ofQuotient {sign : Bool} {fits : Representable n}
    (h : ofQuotient negative num den = finite sign n fits) : sign = negative := by
  unfold ofQuotient at h
  split at h
  · cases h
    rfl
  · cases h

/-- A quotient without remainder is not rounded. -/
theorem roundDiv_of_dvd (hden : 0 < den) (h : den ∣ num) : roundDiv num den = num / den := by
  rw [roundDiv, Nat.mod_eq_zero_of_dvd h]
  exact if_pos hden

/-- **A magnitude of the format is its own rounding.** -/
theorem roundUnits_of_representable (h : Representable n) : roundUnits n 1 = n := by
  rw [roundUnits, Nat.div_one, Nat.one_mul]
  have spacing : 0 < Nat.pow 2 (excess n) := Nat.two_pow_pos _
  rw [roundDiv_of_dvd spacing h.2, Nat.div_mul_cancel h.2]

/-- **A magnitude of the format is its own rounding.** -/
theorem ofQuotient_of_representable (h : Representable n) :
    ofQuotient negative n 1 = finite negative n h := by
  unfold ofQuotient
  simp only [roundUnits_of_representable h]
  exact dif_pos h.1

/-- Rounding never falls below the highest power of two in the quotient. -/
theorem two_pow_log2_le_roundUnits (h : num / den ≠ 0) :
    2 ^ (num / den).log2 ≤ roundUnits num den := by
  rw [roundUnits]
  simp only [Nat.pow_eq]
  generalize hq : num / den = q at *
  -- The spacing divides that power, so rounding the quotient by the spacing cannot go below it.
  have split : 2 ^ q.log2 = 2 ^ (q.log2 - excess q) * 2 ^ excess q := by
    rw [← Nat.pow_add]
    congr 1
    unfold excess
    omega
  have low : 2 ^ (q.log2 - excess q) ≤ roundDiv num (den * 2 ^ excess q) := by
    have whole : 2 ^ (q.log2 - excess q) ≤ num / (den * 2 ^ excess q) := by
      rw [← Nat.div_div_eq_div_mul, hq, Nat.le_div_iff_mul_le (Nat.two_pow_pos _), ← split]
      exact Nat.log2_self_le h
    rcases roundDiv_eq_or num (den * 2 ^ excess q) with h | h <;> omega
  rw [split]
  exact Nat.mul_le_mul_right _ low

/-- The ceiling is a power of two, with an exponent that nothing evaluates. -/
theorem ceiling_eq_two_pow : ∃ k, ceiling = 2 ^ k := by
  unfold ceiling
  generalize 2098 = k
  exact ⟨k, Nat.pow_eq⟩

/-- What reaches the ceiling is infinite. -/
theorem ofQuotient_of_ceiling_le (hden : 0 < den) (h : ceiling * den ≤ num) :
    ofQuotient negative num den = infinity negative := by
  have reached : ceiling ≤ num / den := (Nat.le_div_iff_mul_le hden).2 h
  obtain ⟨k, hk⟩ := ceiling_eq_two_pow
  have positive : 0 < ceiling := hk ▸ Nat.two_pow_pos k
  have nonzero : num / den ≠ 0 := Nat.ne_of_gt (Nat.lt_of_lt_of_le positive reached)
  have large : k ≤ (num / den).log2 := (Nat.le_log2 nonzero).2 (hk ▸ reached)
  have rounded : ceiling ≤ roundUnits num den :=
    calc ceiling = 2 ^ k := hk
      _ ≤ 2 ^ (num / den).log2 := Nat.pow_le_pow_right (by decide) large
      _ ≤ roundUnits num den := two_pow_log2_le_roundUnits nonzero
  exact dif_neg (Nat.not_lt.2 rounded)

/-- What is below half a unit is zero. -/
theorem ofQuotient_of_small (h : 2 * num < den) : ofQuotient negative num den = zero negative := by
  have hdiv : num / den = 0 := Nat.div_eq_of_lt (by omega)
  have rounded : roundUnits num den = 0 := by
    rw [roundUnits, hdiv]
    have : excess 0 = 0 := by decide
    rw [this, Nat.pow_eq, Nat.pow_zero, Nat.mul_one, Nat.mul_one, roundDiv,
      Nat.mod_eq_of_lt (by omega), hdiv]
    exact if_pos h
  unfold ofQuotient
  simp only [rounded]
  exact dif_pos representable_zero.1

end Double
end GuildRating
