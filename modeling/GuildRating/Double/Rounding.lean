/-
# Rounding an exact quotient once

Every operation on doubles is the exact result rounded once, to the nearest value of the
format and to the even neighbour from half way.  An exact result is a quotient of two natural
numbers of units, so one function, `Double.ofQuotient`, does all the rounding; a result that
would reach the ceiling is an infinity.

`representable_roundUnits` says that rounding lands on a magnitude of the format whenever it
stays below the ceiling.
-/

import GuildRating.Double.Basic

namespace GuildRating
namespace Double

/-- The quotient `num / den` rounded to a whole number, from half way to the even one. -/
def roundDiv (num den : Nat) : Nat :=
  let low := num / den
  let twice := 2 * (num % den)
  if twice < den then low
  else if den < twice then low + 1
  else if low % 2 = 0 then low
  else low + 1

/-- A quotient is rounded down or up, and no further. -/
theorem roundDiv_eq_or (num den : Nat) :
    roundDiv num den = num / den ∨ roundDiv num den = num / den + 1 := by
  unfold roundDiv
  dsimp only
  split
  · exact .inl rfl
  · split
    · exact .inr rfl
    · split
      · exact .inl rfl
      · exact .inr rfl

/-- A quotient is rounded up by one at most. -/
theorem roundDiv_le (num den : Nat) : roundDiv num den ≤ num / den + 1 := by
  rcases roundDiv_eq_or num den with h | h <;> omega

/-- A number of `num / den` units rounded to the nearest multiple of the spacing that 53 bits
leave at that size. -/
def roundUnits (num den : Nat) : Nat :=
  let spacing := Nat.pow 2 (excess (num / den))
  roundDiv num (den * spacing) * spacing

/-- Counted in the spacing at its place, a number of units has 53 bits at most. -/
theorem div_spacing_lt (q : Nat) : q / Nat.pow 2 (excess q) < Nat.pow 2 53 := by
  simp only [Nat.pow_eq, excess]
  by_cases h : q.log2 ≤ 52
  · rw [Nat.sub_eq_zero_of_le h, Nat.pow_zero, Nat.div_one]
    calc q < 2 ^ (q.log2 + 1) := Nat.lt_log2_self
      _ ≤ 2 ^ 53 := Nat.pow_le_pow_right (by decide) (by omega)
  · rw [Nat.div_lt_iff_lt_mul (Nat.two_pow_pos _), ← Nat.pow_add]
    have : 53 + (q.log2 - 52) = q.log2 + 1 := by omega
    rw [this]
    exact Nat.lt_log2_self

/-- Rounding to the spacing at its place leaves a quotient 53 bits, or makes it the first number
with 54. -/
theorem roundDiv_spacing_le (num den : Nat) :
    roundDiv num (den * Nat.pow 2 (excess (num / den))) ≤ Nat.pow 2 53 := by
  have step := roundDiv_le num (den * Nat.pow 2 (excess (num / den)))
  rw [← Nat.div_div_eq_div_mul] at step
  have := div_spacing_lt (num / den)
  omega

/-- At most 53 bits shifted up stay a multiple of what their own size demands. -/
theorem spacing_dvd {t : Nat} (k : Nat) (h : t ≤ Nat.pow 2 53) :
    Nat.pow 2 (excess (t * Nat.pow 2 k)) ∣ t * Nat.pow 2 k := by
  simp only [Nat.pow_eq] at *
  by_cases ht : t = 0
  · simp [ht]
  have nonzero : t * 2 ^ k ≠ 0 := Nat.mul_ne_zero ht (Nat.ne_of_gt (Nat.two_pow_pos k))
  by_cases top : t = 2 ^ 53
  · subst top
    rw [← Nat.pow_add, excess, Nat.log2_two_pow]
    exact Nat.pow_dvd_pow 2 (by omega)
  · have below : t * 2 ^ k < 2 ^ (53 + k) := by
      rw [Nat.pow_add]
      exact Nat.mul_lt_mul_of_pos_right (by omega) (Nat.two_pow_pos k)
    have := (Nat.log2_lt nonzero).2 below
    exact Nat.dvd_trans (Nat.pow_dvd_pow 2 (show excess (t * 2 ^ k) ≤ k by unfold excess; omega))
      (Nat.dvd_mul_left _ _)

/-- **What rounding gives below the ceiling is a magnitude of the format.** -/
theorem representable_roundUnits {num den : Nat} (h : roundUnits num den < ceiling) :
    Representable (roundUnits num den) :=
  ⟨h, spacing_dvd _ (roundDiv_spacing_le num den)⟩

/-- The double nearest to `num / den` units with the given sign. -/
def ofQuotient (negative : Bool) (num den : Nat) : Double :=
  if h : roundUnits num den < ceiling then
    finite negative (roundUnits num den) (representable_roundUnits h)
  else infinity negative

/-- The double nearest to a whole number of units. -/
def ofUnits (units : Int) : Double := ofQuotient (units < 0) units.natAbs 1

/-- The double nearest to a natural number. -/
def ofNat (n : Nat) : Double := ofQuotient false (n * unitsPerOne) 1

instance : One Double := ⟨ofNat 1⟩

end Double
end GuildRating
