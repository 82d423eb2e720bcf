/-
# The nearest double

Rounding is told by what it comes down to: no value of the format is nearer to an exact result than
the one it is rounded to (`rounded_nearest`), and from half way between two values the even one is
taken (`roundUnits_tie`).  Positions on the number line are whole numbers of units here, with their
signs; a finite sum lies at the rounding of the exact sum, and a floor at the whole number below.
-/

import GuildRating.Proofs.Decimal.Shortest
import GuildRating.Proofs.Double.Closed

namespace GuildRating
namespace Double

variable {e j m n num den t : Nat} {negative : Bool}

/-! ### Magnitudes -/

/-- All bits below the 53 highest are clear: a magnitude of the format, were there no ceiling. -/
def Spaced (n : Nat) : Prop := Nat.pow 2 (excess n) ∣ n

/-- At most 53 bits, shifted up. -/
theorem spaced_shifted (ht : t ≤ 2 ^ 53) (e : Nat) : Spaced (t * 2 ^ e) := spacing_dvd e ht

/-- A whole number of 53 bits is spaced. -/
theorem spaced_whole (ht : t ≤ 2 ^ 53) : Spaced (t * unitsPerOne) := by
  obtain ⟨e, -, he⟩ := Decimal.exists_unitsPerOne_eq
  rw [he]
  exact spaced_shifted ht e

/-- What has 53 bits has at least the spacing of its size. -/
theorem two_pow_dvd_of_le (hm : Spaced m) (h : 2 ^ (52 + e) ≤ m) : 2 ^ e ∣ m := by
  have := sub_le_excess h
  rw [Nat.add_sub_cancel_left] at this
  exact Nat.dvd_trans (Nat.pow_dvd_pow 2 this) hm

/-- From two to the 52nd on there are whole numbers only. -/
theorem unitsPerOne_dvd (hm : Spaced m) (h : 2 ^ 52 * unitsPerOne ≤ m) : unitsPerOne ∣ m := by
  obtain ⟨e, -, he⟩ := Decimal.exists_unitsPerOne_eq
  rw [he, ← Nat.pow_add] at h
  rw [he]
  exact two_pow_dvd_of_le hm h

/-- The whole part of a magnitude, rounded down or up, is one too. -/
theorem spaced_of_near {whole : Nat} (hm : Spaced m) (low : m < (whole + 1) * unitsPerOne)
    (high : whole * unitsPerOne < m + unitsPerOne) : Spaced (whole * unitsPerOne) := by
  have one := unitsPerOne_pos
  rcases Nat.lt_or_ge whole (2 ^ 53) with hlt | hle
  · exact spaced_whole (Nat.le_of_lt hlt)
  · have large : 2 ^ 52 * unitsPerOne ≤ m := by
      have := Nat.mul_le_mul_right unitsPerOne hle
      generalize unitsPerOne = u at *
      omega
    obtain ⟨k, hk⟩ := unitsPerOne_dvd hm large
    rw [Nat.mul_comm] at hk
    rw [hk] at low high hm
    rw [← Nat.succ_mul] at high
    have same : whole = k := Nat.le_antisymm
      (Nat.le_of_lt_succ (Nat.lt_of_mul_lt_mul_right high))
      (Nat.le_of_lt_succ (Nat.lt_of_mul_lt_mul_right low))
    rwa [same]

/-! ### What a magnitude is rounded to -/

/-- No whole number is nearer to a quotient than the one it is rounded to. -/
theorem roundDiv_nearest (hden : 0 < den) (num k : Nat) :
    ((roundDiv num den * den : Nat) - num : Int).natAbs ≤ ((k * den : Nat) - num : Int).natAbs := by
  have hmod := Nat.div_add_mod num den
  have hlt := Nat.mod_lt num hden
  rw [Nat.mul_comm] at hmod
  have next : (num / den + 1) * den = num / den * den + den := Nat.succ_mul _ _
  -- every other whole number lies on the far side of one of the two neighbours
  have apart : k * den ≤ num / den * den ∨ (num / den + 1) * den ≤ k * den := by
    rcases Nat.lt_or_ge (num / den) k with h | h
    · exact .inr (Nat.mul_le_mul_right den h)
    · exact .inl (Nat.mul_le_mul_right den h)
  unfold roundDiv
  dsimp only
  split
  · omega
  · split
    · rw [next]
      omega
    · split
      · omega
      · rw [next]
        omega

/-- **No magnitude is nearer than the one that is rounded to.** -/
theorem roundUnits_nearest (hn : Spaced n) (m : Nat) :
    ((roundUnits m 1 : Int) - m).natAbs ≤ ((n : Int) - m).natAbs := by
  rw [roundUnits, Nat.div_one, Nat.one_mul]
  have spacing : 0 < Nat.pow 2 (excess m) := Nat.two_pow_pos _
  rcases Nat.lt_or_ge (excess n) (excess m) with hlt | hle
  · -- a magnitude of a finer spacing is below the power of two that starts the coarser one
    unfold excess at hlt
    have hm : m ≠ 0 := by
      rintro rfl
      exact absurd hlt (by simp)
    have start : 2 ^ m.log2 ≤ m := Nat.log2_self_le hm
    have below : n < 2 ^ m.log2 := by
      rcases Nat.eq_zero_or_pos n with rfl | hn
      · exact Nat.two_pow_pos _
      · exact (Nat.log2_lt (Nat.ne_of_gt hn)).1 (by omega)
    obtain ⟨k, hk⟩ : Nat.pow 2 (excess m) ∣ 2 ^ m.log2 := Nat.pow_dvd_pow 2 (Nat.sub_le _ _)
    have nearest := roundDiv_nearest spacing m k
    rw [Nat.mul_comm k, ← hk] at nearest
    omega
  · obtain ⟨k, hk⟩ := Nat.dvd_trans (Nat.pow_dvd_pow 2 hle) hn
    have nearest := roundDiv_nearest spacing m k
    rw [Nat.mul_comm k] at nearest
    rwa [hk]

/-- What is spaced is rounded to itself. -/
theorem roundUnits_of_spaced (h : Spaced m) : roundUnits m 1 = m := by
  have := roundUnits_nearest h m
  omega

/-- **What a quotient is rounded to is spaced.** -/
theorem spaced_roundUnits (num den : Nat) : Spaced (roundUnits num den) :=
  spacing_dvd _ (roundDiv_spacing_le num den)

/-- What lies half way between two neighbours of 53 bits goes to the even one. -/
theorem roundUnits_tie (low : 2 ^ 52 ≤ j) (high : j < 2 ^ 53) :
    roundUnits ((2 * j + 1) * 2 ^ e) 1 = (if j % 2 = 0 then j else j + 1) * 2 ^ (e + 1) := by
  have positive : 0 < 2 ^ e := Nat.two_pow_pos e
  have double : 2 ^ (e + 1) = 2 * 2 ^ e := Nat.pow_succ'
  have hlog : ((2 * j + 1) * 2 ^ e).log2 = 53 + e := by
    rw [Nat.log2_eq_iff (Nat.ne_of_gt (Nat.mul_pos (Nat.succ_pos _) positive)),
      Nat.add_right_comm, Nat.pow_add, Nat.pow_add]
    exact ⟨Nat.mul_le_mul_right _ (by omega), Nat.mul_lt_mul_of_pos_right (by omega) positive⟩
  have hexcess : excess ((2 * j + 1) * 2 ^ e) = e + 1 := by
    rw [excess, hlog]
    omega
  have hdiv : (2 * j + 1) * 2 ^ e / 2 ^ (e + 1) = j := by
    rw [double, Nat.mul_div_mul_right _ _ positive]
    omega
  have hmod : (2 * j + 1) * 2 ^ e % 2 ^ (e + 1) = 2 ^ e := by
    rw [double, Nat.mul_mod_mul_right, Nat.mul_add_mod, Nat.one_mul]
  rw [roundUnits, Nat.div_one, hexcess, Nat.one_mul]
  refine congrArg (· * _) ?_
  rw [Nat.pow_eq, roundDiv, hdiv, hmod, double, if_neg (Nat.lt_irrefl _),
    if_neg (Nat.lt_irrefl _)]

/-! ### What a position is rounded to -/

/-- The position of a double, were there no ceiling. -/
def Placed (v : Int) : Prop := Spaced v.natAbs

/-- Where an exact result is rounded to. -/
def rounded (u : Int) : Int := signed (u < 0) (roundUnits u.natAbs 1)

variable {k u v : Int}

/-- A spaced magnitude is placed with either sign. -/
theorem placed_signed (h : Spaced m) : Placed (signed negative m) := by
  rw [Placed, natAbs_signed]
  exact h

/-- A number of 53 bits by a power of two is placed. -/
theorem placed_mul (hk : k.natAbs ≤ 2 ^ 53) (e : Nat) : Placed (k * (2 ^ e : Nat)) := by
  rw [Placed, Int.natAbs_mul, Int.natAbs_natCast]
  exact spaced_shifted hk e

/-- Rounding looks at magnitudes only. -/
theorem rounded_signed (negative : Bool) (m : Nat) :
    rounded (signed negative m) = signed negative (roundUnits m 1) := by
  rw [rounded, natAbs_signed]
  cases negative with
  | false =>
    have : ¬ (signed false m < 0) := Int.not_lt.2 (Int.natCast_nonneg m)
    rw [decide_eq_false this]
  | true =>
    rcases Nat.eq_zero_or_pos m with rfl | hm
    · rw [roundUnits_of_representable representable_zero]
      rfl
    · have : signed true m < 0 := Int.neg_neg_of_pos (Int.natCast_pos.2 hm)
      rw [decide_eq_true this]

/-- What an exact result is rounded to is placed. -/
theorem placed_rounded (u : Int) : Placed (rounded u) := placed_signed (spaced_roundUnits _ 1)

/-- **No position is nearer to an exact result than the one it is rounded to.** -/
theorem rounded_nearest (hv : Placed v) (u : Int) : (rounded u - u).natAbs ≤ (v - u).natAbs := by
  have nearest := roundUnits_nearest hv u.natAbs
  unfold rounded signed
  split
  · next h =>
    have := of_decide_eq_true h
    omega
  · next h =>
    have := of_decide_eq_false (Bool.not_eq_true _ ▸ h)
    omega

/-- What is placed is rounded to itself. -/
theorem rounded_of_placed (hv : Placed v) : rounded v = v := by
  have := rounded_nearest hv v
  omega

/-- Rounding does not pass a position, neither from above nor from below. -/
theorem le_rounded (hv : Placed v) (h : v ≤ u) : v ≤ rounded u := by
  have := rounded_nearest hv u
  omega

/-- Rounding does not pass a placed value from below. -/
theorem rounded_le (hv : Placed v) (h : u ≤ v) : rounded u ≤ v := by
  have := rounded_nearest hv u
  omega

/-! ### Sums and floors -/

/-- A finite rounding lies at the rounded magnitude. -/
theorem position_ofQuotient (h : (ofQuotient negative num den).isFinite = true) :
    (ofQuotient negative num den).position = some (signed negative (roundUnits num den)) := by
  unfold ofQuotient at h ⊢
  split at h
  · next fits =>
    rw [dif_pos fits]
    rfl
  · cases h

/-- **A finite sum lies where the exact sum is rounded to.** -/
theorem position_add {s t : Bool} {m n : Nat} {fits : Representable m} {fits' : Representable n}
    (h : (finite s m fits + finite t n fits').isFinite = true) :
    (finite s m fits + finite t n fits').position = some (rounded (signed s m + signed t n)) := by
  have hadd : finite s m fits + finite t n fits' =
      if signed s m + signed t n = 0 then zero (s && t) else ofUnits (signed s m + signed t n) :=
    rfl
  rw [hadd] at h ⊢
  split
  · next hzero =>
    rw [hzero, rounded_of_placed (v := 0) representable_zero.2]
    cases s && t <;> rfl
  · next hne =>
    rw [if_neg hne] at h
    exact position_ofQuotient h

/-- The sign of a product of a magnitude and a number is that of the magnitude. -/
theorem signed_mul (negative : Bool) (m n : Nat) :
    signed negative (m * n) = signed negative m * n := by
  cases negative with
  | false => exact Int.natCast_mul m n
  | true => exact (congrArg Neg.neg (Int.natCast_mul m n)).trans (Int.neg_mul _ _).symm

/-- Without a sign the floor cuts off what is beyond the whole part. -/
theorem position_floor_pos {whole : Nat} {fits : Representable m}
    (low : whole * unitsPerOne ≤ m) (high : m < (whole + 1) * unitsPerOne) :
    (finite false m fits).floor.position = some (signed false (whole * unitsPerOne)) := by
  have one := unitsPerOne_pos
  have hfinite := isFinite_floor (x := finite false m fits) rfl
  have hdiv : m / unitsPerOne = whole := Nat.div_eq_of_lt_le low high
  rw [floor, if_neg Bool.false_ne_true, hdiv] at hfinite ⊢
  rw [position_ofQuotient hfinite, roundUnits_of_spaced (spaced_of_near fits.2 high (by omega))]

/-- With a sign the magnitude goes up to the next whole number. -/
theorem position_floor_neg {whole : Nat} {fits : Representable m}
    (low : m ≤ whole * unitsPerOne) (high : whole * unitsPerOne < m + unitsPerOne) :
    (finite true m fits).floor.position = some (signed true (whole * unitsPerOne)) := by
  have one := unitsPerOne_pos
  have hfinite := isFinite_floor (x := finite true m fits) rfl
  have near : m < (whole + 1) * unitsPerOne := by
    rw [Nat.succ_mul]
    omega
  have hdiv : (m + unitsPerOne - 1) / unitsPerOne = whole := by
    refine Nat.div_eq_of_lt_le (by omega) ?_
    rw [Nat.succ_mul]
    omega
  rw [floor, if_pos rfl, hdiv] at hfinite ⊢
  rw [position_ofQuotient hfinite, roundUnits_of_spaced (spaced_of_near fits.2 near high)]

/-- The `k`-th multiple of `one` is the last one that is not above `u`. -/
def HasFloor (one : Nat) (k u : Int) : Prop := k * one ≤ u ∧ u < (k + 1) * one

/-- **The floor lies at the whole number below.** -/
theorem position_floor {fits : Representable m}
    (h : HasFloor unitsPerOne k (signed negative m)) :
    (finite negative m fits).floor.position = some (k * unitsPerOne) := by
  have one : (0 : Int) < unitsPerOne := Int.natCast_pos.2 unitsPerOne_pos
  obtain ⟨low, high⟩ := h
  cases negative with
  | false =>
    change k * unitsPerOne ≤ (m : Int) at low
    change (m : Int) < (k + 1) * unitsPerOne at high
    have hk : 0 < k + 1 :=
      Int.lt_of_mul_lt_mul_right (a := (unitsPerOne : Int)) (by omega) (Int.le_of_lt one)
    obtain ⟨whole, rfl⟩ := Int.eq_ofNat_of_zero_le (Int.le_of_lt_add_one hk)
    rw [position_floor_pos (by exact_mod_cast low) (by exact_mod_cast high), signed_mul]
    rfl
  | true =>
    change k * unitsPerOne ≤ -(m : Int) at low
    change -(m : Int) < (k + 1) * unitsPerOne at high
    have hk : -1 < -k := by
      refine Int.lt_of_mul_lt_mul_right (a := (unitsPerOne : Int)) ?_ (Int.le_of_lt one)
      rw [Int.neg_mul, Int.neg_mul]
      omega
    obtain ⟨whole, hwhole⟩ := Int.eq_ofNat_of_zero_le (Int.add_one_le_of_lt hk)
    obtain rfl : k = -(whole : Int) := by omega
    rw [Int.neg_mul] at low
    rw [Int.add_mul, Int.neg_mul, Int.one_mul] at high
    have above : (whole * unitsPerOne : Int) < m + unitsPerOne := by omega
    rw [position_floor_neg (by exact_mod_cast Int.le_of_neg_le_neg low) (by exact_mod_cast above),
      signed_mul]
    rfl

end Double
end GuildRating
