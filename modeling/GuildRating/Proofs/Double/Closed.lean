/-
# What finite doubles are closed under

Rounding never passes a magnitude of the format (`roundUnits_le`), so whatever is not above the
largest one stays finite.  Remainders, whole parts, absolute values, the larger and the smaller of
two values, and square roots of what is not negative are never above it.  Sums, differences,
products and quotients may be, and then they are infinite; still they are numbers.  Only two
operations on finite values leave the numbers: the square root of a negative value
(`isNaN_sqrt_iff`), and the power of a negative base to an exponent that is not a whole number
(`isNaN_pow_iff`).
-/

import GuildRating.Double.Power
import GuildRating.Proofs.Double.Quotient

namespace GuildRating
namespace Double

variable {x y : Double} {num den m n : Nat} {negative : Bool}

/-! ### The largest magnitude -/

/-- What lies between two of the largest magnitudes, in units. -/
def topSpacing : Nat := Nat.pow 2 2045

/-- The largest magnitude of the format, in units: 53 set bits. -/
def largest : Nat := 9007199254740991 * topSpacing

-- Powers of two as large as these are evaluated by the kernel alone.
theorem largest_spec : Representable largest ∧ ceiling = largest + topSpacing ∧
    Nat.pow 2 2097 ≤ largest ∧ unitsPerOne ∣ largest ∧ Nat.pow 2 64 * unitsPerOne ≤ largest := by
  decide +kernel

/-- The largest magnitude is one of the format. -/
theorem representable_largest : Representable largest := largest_spec.1

/-- The ceiling is where the next magnitude would be. -/
theorem ceiling_eq : ceiling = largest + topSpacing := largest_spec.2.1

/-! ### Rounding below the largest magnitude -/

/-- A larger number has as many bits beyond the 53 highest, or more. -/
theorem excess_le_excess (h : m ≤ n) : excess m ≤ excess n := by
  rcases Nat.eq_zero_or_pos m with rfl | hm
  · exact Nat.zero_le _
  · have : m.log2 ≤ n.log2 :=
      (Nat.le_log2 (by omega)).2 (Nat.le_trans (Nat.log2_self_le (by omega)) h)
    exact Nat.sub_le_sub_right this 52

/-- A quotient is not rounded past a number that is not below it. -/
theorem roundDiv_le_of_le (hden : 0 < den) (h : num ≤ n * den) : roundDiv num den ≤ n := by
  have hle : num / den ≤ n := Nat.div_le_of_le_mul (by rwa [Nat.mul_comm])
  rcases Nat.lt_or_eq_of_le hle with hlt | heq
  · exact Nat.le_trans (roundDiv_le num den) hlt
  · -- the quotient is as large as allowed, so it leaves no remainder
    have exact : num = n * den :=
      Nat.le_antisymm h (by rw [← heq]; exact Nat.div_mul_le_self num den)
    rw [roundDiv_of_dvd hden (exact ▸ Nat.dvd_mul_left den n)]
    exact hle

/-- **Rounding does not pass a magnitude of the format.** -/
theorem roundUnits_le (hden : 0 < den) (hn : Representable n) (h : num ≤ n * den) :
    roundUnits num den ≤ n := by
  have hdiv : num / den ≤ n := Nat.div_le_of_le_mul (by rwa [Nat.mul_comm])
  -- the spacing at the quotient divides that at the magnitude
  have hspacing : Nat.pow 2 (excess (num / den)) ∣ n :=
    Nat.dvd_trans (Nat.pow_dvd_pow 2 (excess_le_excess hdiv)) hn.2
  have positive : 0 < Nat.pow 2 (excess (num / den)) := Nat.two_pow_pos _
  rw [roundUnits]
  generalize Nat.pow 2 (excess (num / den)) = spacing at *
  obtain ⟨t, rfl⟩ := hspacing
  rw [Nat.mul_comm spacing t]
  refine Nat.mul_le_mul_right _ (roundDiv_le_of_le (Nat.mul_pos hden positive) ?_)
  calc num ≤ spacing * t * den := h
    _ = t * (den * spacing) := by ring

/-- A quotient that is rounded to less than the ceiling is finite. -/
theorem isFinite_ofQuotient_of_lt (h : roundUnits num den < ceiling) :
    (ofQuotient negative num den).isFinite = true := by
  rw [ofQuotient, dif_pos h]
  rfl

/-- **A quotient that is not above the largest magnitude is finite.** -/
theorem isFinite_ofQuotient (hden : 0 < den) (h : num ≤ largest * den) :
    (ofQuotient negative num den).isFinite = true :=
  isFinite_ofQuotient_of_lt
    (Nat.lt_of_le_of_lt (roundUnits_le hden representable_largest h) representable_largest.1)

/-- So is a number of units that is not above it. -/
theorem isFinite_ofQuotient_one (h : num ≤ largest) :
    (ofQuotient negative num 1).isFinite = true :=
  isFinite_ofQuotient Nat.one_pos (by rwa [Nat.mul_one])

/-- A number from a power of two on has all the bits beyond the 53 highest that the power has. -/
theorem sub_le_excess {k : Nat} (h : Nat.pow 2 k ≤ n) : k - 52 ≤ excess n := by
  have positive : 0 < Nat.pow 2 k := Nat.two_pow_pos k
  have : k ≤ n.log2 := (Nat.le_log2 (by omega)).2 h
  exact Nat.sub_le_sub_right this 52

/-- Where the spacing is not below that of the largest magnitude, it is a multiple of that one. -/
theorem topSpacing_dvd (h : 2045 ≤ excess n) : topSpacing ∣ Nat.pow 2 (excess n) := by
  unfold topSpacing
  generalize 2045 = k at *
  exact Nat.pow_dvd_pow 2 h

/-- Above the largest magnitude there is none below the ceiling. -/
theorem le_largest (h : Representable n) : n ≤ largest := by
  obtain ⟨hbelow, hdvd⟩ := h
  by_contra hlt
  obtain ⟨-, -, top, -⟩ := largest_spec
  have hexcess : 2045 ≤ excess n := sub_le_excess (Nat.le_trans top (by omega))
  have hdvd := Nat.dvd_trans (topSpacing_dvd hexcess) hdvd
  rw [ceiling_eq, largest, ← Nat.succ_mul] at hbelow
  rw [largest] at hlt
  generalize topSpacing = s at *
  obtain ⟨t, rfl⟩ := hdvd
  rw [Nat.mul_comm s] at hbelow hlt
  have := Nat.lt_of_mul_lt_mul_right hbelow
  have := Nat.lt_of_mul_lt_mul_right (Nat.not_le.1 hlt)
  omega

/-- Below the ceiling a number has 2098 bits at most. -/
theorem log2_lt_of_lt_ceiling (hn : n ≠ 0) (h : n < ceiling) : n.log2 < 2098 := by
  unfold ceiling at h
  generalize 2098 = k at *
  exact (Nat.log2_lt hn).2 h

/-- The spacing next to the largest magnitude, by its exponent. -/
theorem two_pow_excess (h : excess n = 2045) : Nat.pow 2 (excess n) = topSpacing := by
  unfold topSpacing
  generalize 2045 = k at *
  rw [h]

/-- A quotient that is nearer to the number below it than to the next is rounded down. -/
theorem roundDiv_of_near (h : n * den ≤ num) (h' : 2 * num < 2 * (n * den) + den) :
    roundDiv num den = n := by
  have hdiv : num / den = n := Nat.div_eq_of_lt_le h (by rw [Nat.succ_mul]; omega)
  have hmod := Nat.div_add_mod num den
  rw [hdiv, Nat.mul_comm] at hmod
  rw [roundDiv, hdiv]
  exact if_pos (by omega)

/-- What is nearer to the largest magnitude than to the ceiling stays finite too. -/
theorem isFinite_ofQuotient_of_near (h : 2 * num < 2 * largest + topSpacing) :
    (ofQuotient negative num 1).isFinite = true := by
  rcases Nat.lt_or_ge largest num with hlt | hle
  · have hceiling := ceiling_eq
    obtain ⟨-, -, top, -⟩ := largest_spec
    have hlog : num.log2 < 2098 := log2_lt_of_lt_ceiling (by omega) (by omega)
    have hlow : 2045 ≤ excess num := sub_le_excess (Nat.le_trans top (by omega))
    have hexcess : excess num = 2045 := by
      unfold excess at *
      omega
    rw [largest] at h hlt
    refine isFinite_ofQuotient_of_lt ?_
    rw [roundUnits, Nat.div_one, two_pow_excess hexcess, Nat.one_mul,
      roundDiv_of_near (Nat.le_of_lt hlt) h]
    exact representable_largest.1
  · exact isFinite_ofQuotient_one hle

/-! ### Signs and zeros -/

/-- A finite value is a magnitude with a sign. -/
theorem exists_eq_finite (h : x.isFinite = true) :
    ∃ negative units fits, x = finite negative units fits := by
  cases x with
  | nan => cases h
  | infinity negative => cases h
  | finite negative units fits => exact ⟨negative, units, fits, rfl⟩

/-- A sign does not change the magnitude. -/
theorem natAbs_signed (negative : Bool) (n : Nat) : (signed negative n).natAbs = n := by
  cases negative with
  | false => exact Int.natAbs_natCast n
  | true => exact Int.natAbs_neg n

/-- Zero is what has no magnitude. -/
theorem isZero_finite_iff {fits : Representable n} :
    (finite negative n fits).isZero = true ↔ n = 0 := by
  rw [isZero_iff, position, Option.some.injEq, ← Int.natAbs_eq_zero, natAbs_signed]

/-- Negative is what has a sign and is not zero. -/
theorem less_zero_finite_iff {fits : Representable n} :
    (finite negative n fits).less 0 = true ↔ negative = true ∧ n ≠ 0 := by
  rw [less, position, position_zero]
  dsimp only
  rw [decide_eq_true_iff]
  cases negative with
  | false => simp [signed]
  | true => simp [signed, Nat.pos_iff_ne_zero]

/-- The value is a whole number. -/
def IsInteger (x : Double) : Prop := ∃ k : Int, x.position = some (k * unitsPerOne)

/-- A magnitude is that of a whole number if units leave nothing over. -/
theorem isInteger_finite_iff {fits : Representable n} :
    (finite negative n fits).IsInteger ↔ isWhole n = true := by
  rw [isWhole, decide_eq_true_iff]
  constructor
  · rintro ⟨k, hk⟩
    have := congrArg Int.natAbs (Option.some.inj hk)
    rw [natAbs_signed, Int.natAbs_mul, Int.natAbs_natCast] at this
    rw [this]
    exact Nat.mul_mod_left _ _
  · intro h
    obtain ⟨k, hk⟩ := Nat.dvd_of_mod_eq_zero h
    refine ⟨signed negative k, ?_⟩
    rw [position, Option.some.injEq, hk]
    generalize unitsPerOne = one
    cases negative <;> simp [signed, Int.mul_comm]

/-! ### Always a number -/

/-- A quotient is always rounded to a number. -/
theorem isNaN_ofQuotient : (ofQuotient negative num den).isNaN = false := by
  unfold ofQuotient
  split <;> rfl

/-- A sum of finite values is a number, though it may be infinite. -/
theorem isNaN_add (hx : x.isFinite = true) (hy : y.isFinite = true) : (x + y).isNaN = false := by
  obtain ⟨s, m, fits, rfl⟩ := exists_eq_finite hx
  obtain ⟨t, n, fits', rfl⟩ := exists_eq_finite hy
  change (Double.add _ _).isNaN = false
  rw [Double.add]
  split
  · rfl
  · exact isNaN_ofQuotient

/-- So is a difference. -/
theorem isNaN_sub (hx : x.isFinite = true) (hy : y.isFinite = true) : (x - y).isNaN = false := by
  refine isNaN_add hx ?_
  obtain ⟨t, n, fits', rfl⟩ := exists_eq_finite hy
  rfl

/-- So is a product. -/
theorem isNaN_mul (hx : x.isFinite = true) (hy : y.isFinite = true) : (x * y).isNaN = false := by
  obtain ⟨s, m, fits, rfl⟩ := exists_eq_finite hx
  obtain ⟨t, n, fits', rfl⟩ := exists_eq_finite hy
  change (Double.mul _ _).isNaN = false
  rw [Double.mul]
  exact isNaN_ofQuotient

/-- So is a quotient, unless it is by zero. -/
theorem isNaN_div (hx : x.isFinite = true) (hy : y.isFinite = true) (hzero : y.isZero = false) :
    (x / y).isNaN = false := by
  obtain ⟨s, m, fits, rfl⟩ := exists_eq_finite hx
  obtain ⟨t, n, fits', rfl⟩ := exists_eq_finite hy
  have hn : n ≠ 0 := mt isZero_finite_iff.2 (by rw [hzero]; exact Bool.false_ne_true)
  change (Double.div _ _).isNaN = false
  rw [Double.div, if_neg hn]
  exact isNaN_ofQuotient

/-! ### Always finite -/

theorem isFinite_abs (hx : x.isFinite = true) : x.abs.isFinite = true := by
  obtain ⟨s, m, fits, rfl⟩ := exists_eq_finite hx
  rfl

/-- A remainder is not larger than the dividend. -/
theorem isFinite_mod (hx : x.isFinite = true) (hy : y.isFinite = true) (hzero : y.isZero = false) :
    (x % y).isFinite = true := by
  obtain ⟨s, m, fits, rfl⟩ := exists_eq_finite hx
  obtain ⟨t, n, fits', rfl⟩ := exists_eq_finite hy
  have hn : n ≠ 0 := mt isZero_finite_iff.2 (by rw [hzero]; exact Bool.false_ne_true)
  change (Double.mod _ _).isFinite = true
  rw [Double.mod, if_neg hn]
  exact isFinite_ofQuotient_one (Nat.le_trans (Nat.mod_le m n) (le_largest fits))

/-- Whichever of two finite values is chosen is finite. -/
theorem isFinite_chosen (hx : x.isFinite = true) (hy : y.isFinite = true) (p q : Prop)
    [Decidable p] [Decidable q] : (if p then y else if q then y else x).isFinite = true := by
  split
  · exact hy
  · split
    · exact hy
    · exact hx

/-- The larger one of two finite values is finite. -/
theorem isFinite_larger (hx : x.isFinite = true) (hy : y.isFinite = true) :
    (x.larger y).isFinite = true := isFinite_chosen hx hy _ _

/-- The smaller one of two finite values is finite. -/
theorem isFinite_smaller (hx : x.isFinite = true) (hy : y.isFinite = true) :
    (x.smaller y).isFinite = true := isFinite_chosen hx hy _ _

/-- Every finite value lies between the infinities. -/
theorem between_infinities (hx : x.isFinite = true) :
    (infinity true).less x = true ∧ x.less (infinity false) = true := by
  obtain ⟨s, m, fits, rfl⟩ := exists_eq_finite hx
  have hm := fits.1
  have below : (signed s m).natAbs < ceiling := by rwa [natAbs_signed]
  simp only [less, position, signed, if_true, if_false, Bool.false_eq_true, decide_eq_true_eq]
  omega

/-- The larger one of a finite value and the infinity below all values is the finite one. -/
theorem larger_infinity (hx : x.isFinite = true) : (infinity true).larger x = x := by
  rw [larger, (between_infinities hx).1]
  rfl

/-- The smaller one of a finite value and the infinity above all values is the finite one. -/
theorem smaller_infinity (hx : x.isFinite = true) : (infinity false).smaller x = x := by
  rw [smaller, (between_infinities hx).2]
  rfl

/-- The largest magnitude is a whole number, so no whole number next to a value is above it. -/
theorem isFinite_ofQuotient_whole {whole : Nat} (h : whole * unitsPerOne < m + unitsPerOne)
    (hm : m ≤ largest) : (ofQuotient negative (whole * unitsPerOne) 1).isFinite = true := by
  refine isFinite_ofQuotient_one ?_
  obtain ⟨-, -, -, ⟨k, hk⟩, -⟩ := largest_spec
  rw [hk] at hm ⊢
  rw [Nat.mul_comm whole] at h ⊢
  have : unitsPerOne * whole < unitsPerOne * (k + 1) := by
    rw [Nat.mul_succ]
    omega
  exact Nat.mul_le_mul_left _ (Nat.le_of_lt_succ (Nat.lt_of_mul_lt_mul_left this))

/-- The whole numbers next to a magnitude of the format, above it and below, are finite. -/
theorem isFinite_nextWhole (above : Prop) [Decidable above] (hm : m ≤ largest) :
    (ofQuotient negative ((if above then (m + unitsPerOne - 1) / unitsPerOne
      else m / unitsPerOne) * unitsPerOne) 1).isFinite = true := by
  have one := unitsPerOne_pos
  have hbelow := Nat.div_mul_le_self m unitsPerOne
  have habove := Nat.div_mul_le_self (m + unitsPerOne - 1) unitsPerOne
  refine isFinite_ofQuotient_whole ?_ hm
  split <;> omega

/-- The floor of a finite value is finite. -/
theorem isFinite_floor (hx : x.isFinite = true) : x.floor.isFinite = true := by
  obtain ⟨s, m, fits, rfl⟩ := exists_eq_finite hx
  exact isFinite_nextWhole _ (le_largest fits)

/-- The ceiling of a finite value is finite. -/
theorem isFinite_ceil (hx : x.isFinite = true) : x.ceil.isFinite = true := by
  obtain ⟨s, m, fits, rfl⟩ := exists_eq_finite hx
  rw [ceil, ← ite_not]
  exact isFinite_nextWhole _ (le_largest fits)

/-- One half, in units, is a magnitude of the format, and twice it is less than what lies between
two of the largest ones. -/
theorem half_spec : Representable (Nat.pow 2 1073) ∧ 2 * Nat.pow 2 1073 < topSpacing := by
  decide +kernel

/-- One half is lost beside the largest magnitudes. -/
theorem isFinite_add_half (hx : x.isFinite = true) : (x + half).isFinite = true := by
  obtain ⟨s, m, fits, rfl⟩ := exists_eq_finite hx
  obtain ⟨hfits, small⟩ := half_spec
  have hm := le_largest fits
  rw [half, ofQuotient_of_representable hfits]
  generalize Nat.pow 2 1073 = units at *
  change (Double.add _ _).isFinite = true
  rw [Double.add]
  split
  · rfl
  · refine isFinite_ofQuotient_of_near ?_
    have := Int.natAbs_add_le (signed s m) (signed false units)
    rw [natAbs_signed, natAbs_signed] at this
    omega

/-- The nearest whole number to a finite value is finite. -/
theorem isFinite_round (hx : x.isFinite = true) : x.round.isFinite = true :=
  isFinite_floor (isFinite_add_half hx)

/-- A natural number that fits into 64 bits is finite as a double. -/
theorem isFinite_ofNat (h : n ≤ Nat.pow 2 64) : (ofNat n).isFinite = true := by
  obtain ⟨-, -, -, -, small⟩ := largest_spec
  exact isFinite_ofQuotient_one (Nat.le_trans (Nat.mul_le_mul_right _ h) small)

/-! ### Square roots -/

/-- The steps toward a root never go up. -/
theorem rootFrom_le (n guess : Nat) : rootFrom n guess ≤ guess := by
  fun_induction rootFrom n guess with
  | case1 guess next hlt ih => exact Nat.le_trans ih (Nat.le_of_lt hlt)
  | case2 guess next hge => exact Nat.le_refl guess

/-- A root has half as many bits. -/
theorem root_le {k : Nat} (h : n < Nat.pow 2 (2 * k)) : root n ≤ Nat.pow 2 k := by
  rw [root]
  split
  · exact Nat.zero_le _
  · next hn =>
    have hlog : n.log2 < 2 * k := (Nat.log2_lt hn).2 h
    have hguess : n.log2 / 2 + 1 ≤ k := by omega
    exact Nat.le_trans (rootFrom_le n _) (Nat.pow_le_pow_right Nat.two_pos hguess)

/-- A root is far below the largest magnitude. -/
theorem root_lt_largest (hm : m ≤ largest) : root (m * unitsPerOne) < largest := by
  obtain ⟨k, product, small⟩ : ∃ k, largest * unitsPerOne < Nat.pow 2 (2 * k) ∧
      Nat.pow 2 k < largest := ⟨1586, by decide +kernel⟩
  have hn := Nat.lt_of_le_of_lt (Nat.mul_le_mul_right unitsPerOne hm) product
  exact Nat.lt_of_le_of_lt (root_le hn) small

/-- Of finite values, only negative ones have no square root. -/
theorem isNaN_sqrt_iff (hx : x.isFinite = true) : x.sqrt.isNaN = true ↔ x.less 0 = true := by
  obtain ⟨s, m, fits, rfl⟩ := exists_eq_finite hx
  rw [less_zero_finite_iff, sqrt]
  by_cases hm : m = 0
  · rw [if_pos hm]
    exact ⟨fun h => absurd h Bool.false_ne_true, fun h => absurd hm h.2⟩
  · rw [if_neg hm]
    cases s with
    | true => exact ⟨fun _ => ⟨rfl, hm⟩, fun _ => rfl⟩
    | false =>
      refine ⟨fun h => ?_, fun h => absurd h.1 Bool.false_ne_true⟩
      dsimp only at h
      split at h
      · next hs => cases hs
      · split at h <;> rw [isNaN_ofQuotient] at h <;> cases h

/-- Where there is a square root it is finite. -/
theorem isFinite_sqrt (hx : x.isFinite = true) (hneg : x.less 0 = false) :
    x.sqrt.isFinite = true := by
  obtain ⟨s, m, fits, rfl⟩ := exists_eq_finite hx
  have hroot := root_lt_largest (le_largest fits)
  rw [sqrt]
  split
  · rfl
  · next hm =>
    split
    · next hs =>
      rw [less_zero_finite_iff.2 ⟨hs, hm⟩] at hneg
      cases hneg
    · dsimp only
      split
      · exact isFinite_ofQuotient_one (Nat.le_of_lt hroot)
      · exact isFinite_ofQuotient Nat.two_pos (by omega)

/-! ### Powers -/

/-- A number in factors is rounded to a number. -/
theorem isNaN_toDouble (f : Factored) : (f.toDouble negative).isNaN = false := by
  unfold Factored.toDouble
  dsimp only
  split <;> exact isNaN_ofQuotient

/-- An exponential is a number. -/
theorem isNaN_exp (e : Unbounded.Pair) : (exp negative e).isNaN = false := by
  unfold exp
  split
  · rfl
  · split
    · rfl
    · split
      · exact isNaN_ofQuotient
      · exact isNaN_toDouble _

/-- One is a number, and lies at its units. -/
theorem one_spec :
    (1 : Double).position = some (unitsPerOne : Int) ∧ (1 : Double).isNaN = false := by
  decide +kernel

/-- Of finite values, only negative ones have no power, and that to exponents that are not whole. -/
theorem isNaN_pow_iff (hx : x.isFinite = true) (hy : y.isFinite = true) :
    (x.pow y).isNaN = true ↔ x.less 0 = true ∧ ¬ y.IsInteger := by
  obtain ⟨s, m, fits, rfl⟩ := exists_eq_finite hx
  obtain ⟨t, n, fits', rfl⟩ := exists_eq_finite hy
  rw [less_zero_finite_iff, isInteger_finite_iff, pow]
  obtain ⟨position_one, one⟩ := one_spec
  have whole : isWhole 0 = true := decide_eq_true (Nat.zero_mod unitsPerOne)
  split
  · next h =>
    rw [one]
    refine ⟨fun h => absurd h Bool.false_ne_true, ?_⟩
    -- neither is zero a number that is not whole, nor is one negative
    rintro ⟨⟨rfl, hm⟩, hn⟩
    rcases Bool.or_eq_true_iff.1 h with h | h
    · rw [isZero_finite_iff] at h
      rw [h] at hn
      exact absurd whole hn
    · rw [equal, position, position_one] at h
      have := of_decide_eq_true h
      rw [signed, if_pos rfl] at this
      omega
  · split
    · next hm =>
      refine ⟨fun h => ?_, fun h => absurd hm h.1.2⟩
      split at h <;> cases h
    · next hm =>
      split
      · next h =>
        rw [Bool.and_eq_true_iff, Bool.not_eq_true'] at h
        exact ⟨fun _ => ⟨⟨h.1, hm⟩, by rw [h.2]; exact Bool.false_ne_true⟩, fun _ => rfl⟩
      · next h =>
        rw [isNaN_exp]
        refine ⟨fun h => absurd h Bool.false_ne_true, ?_⟩
        rintro ⟨⟨rfl, -⟩, hn⟩
        rw [Bool.not_eq_true] at hn
        exact absurd (by rw [hn]; rfl) h

end Double
end GuildRating
