/-
# Rounding to the nearest whole number

`Double.round` adds one half and takes the floor, and the sum is rounded like any other.  Nearly
everywhere that changes nothing: the exact sum is a double, or there is a double between it and the
next whole number, which rounding does not pass (`hasFloor_rounded`).  It does change something
where no such double is left (`Slips`): just below one half, and at the odd numbers next to which
doubles are whole numbers, where the sum lies half way and goes to the even one above.

One is `2 ^ (e + 54)` units and one half is `2 ^ (e + 53)` of them, `2 ^ e` being the spacing just
below one half.
-/

import GuildRating.Proofs.Double.Nearest
import GuildRating.Proofs.Evaluation.Finite
import GuildRating.Proofs.Evaluation.Unneeded
import GuildRating.Proofs.Rating.Exact

namespace GuildRating
namespace Double

variable {e m : Nat} {k n u v : Int}

/-! ### Sums that keep their floor -/

/-- **Rounding keeps a floor that is the position of a double.** -/
theorem hasFloor_of_placed {one : Nat} (hu : Placed u) (h : HasFloor one n u) :
    HasFloor one n (rounded u) := by
  rwa [rounded_of_placed hu]

/-- A multiple of one is its own floor. -/
theorem hasFloor_mul {one : Nat} (positive : (0 : Int) < one) (k : Int) :
    HasFloor one k (k * one) :=
  ⟨Int.le_refl _, Int.mul_lt_mul_of_pos_right (Int.lt_succ k) positive⟩

/-- With a double between the exact sum and the next whole number the floor is kept. -/
theorem hasFloor_rounded {one : Nat} (hn : Placed (n * one)) (h : HasFloor one n u)
    (hv : Placed v) (huv : u ≤ v) (hnext : v < (n + 1) * one) : HasFloor one n (rounded u) :=
  ⟨le_rounded hn h.1, Int.lt_of_le_of_lt (rounded_le hv huv) hnext⟩

/-- Below a number of 53 bits the next magnitude is one spacing away. -/
theorem le_pred_of_lt {t d : Nat} (hm : Spaced m) (ht : 2 ^ 52 < t) (h : m < t * 2 ^ d) :
    m ≤ (t - 1) * 2 ^ d := by
  by_contra hlt
  have hlt := Nat.lt_of_not_le hlt
  have large : 2 ^ (52 + d) ≤ m := by
    have := Nat.mul_le_mul_right (2 ^ d) (show 2 ^ 52 ≤ t - 1 by omega)
    rw [Nat.pow_add]
    omega
  obtain ⟨q, rfl⟩ := two_pow_dvd_of_le hm large
  rw [Nat.mul_comm] at h
  rw [Nat.mul_comm (2 ^ d)] at hlt
  have := Nat.lt_of_mul_lt_mul_right h
  have := Nat.lt_of_mul_lt_mul_right hlt
  omega

/-- A magnitude less one half, up to two to the 52nd. -/
theorem spaced_sub_half (hm : Spaced m) (low : 2 ^ (e + 53) ≤ m)
    (high : m ≤ 2 ^ 53 * 2 ^ (e + 53)) : Spaced (m - 2 ^ (e + 53)) := by
  rcases Nat.lt_or_eq_of_le high with hlt | heq
  · -- the spacing at the magnitude divides one half
    have hlog : m.log2 < 53 + (e + 53) := by
      rw [Nat.log2_lt (Nat.ne_of_gt (Nat.lt_of_lt_of_le (Nat.two_pow_pos _) low)), Nat.pow_add]
      exact hlt
    have hexcess : excess m ≤ e + 53 := by
      unfold excess
      omega
    have hdvd : Nat.pow 2 (excess m) ∣ m - 2 ^ (e + 53) :=
      Nat.dvd_sub hm (Nat.pow_dvd_pow 2 hexcess)
    exact Nat.dvd_trans (Nat.pow_dvd_pow 2 (excess_le_excess (Nat.sub_le _ _))) hdvd
  · have := spaced_shifted (Nat.sub_le (2 ^ 53) 1) (e + 53)
    rwa [Nat.sub_mul, Nat.one_mul, ← heq] at this

/-- A magnitude plus one half, where half numbers are the spacing. -/
theorem spaced_add_half (hm : Spaced m) (low : 2 ^ 52 * 2 ^ (e + 53) ≤ m)
    (high : m < 2 ^ 53 * 2 ^ (e + 53)) : Spaced (m + 2 ^ (e + 53)) := by
  rw [← Nat.pow_add] at low
  obtain ⟨q, rfl⟩ := two_pow_dvd_of_le hm low
  rw [Nat.mul_comm] at high ⊢
  rw [← Nat.succ_mul]
  exact spaced_shifted (Nat.lt_of_mul_lt_mul_right high) (e + 53)

/-- On a grid of 53 bits that is no coarser than the magnitudes of this size, the last point below
`t` lies between. -/
theorem exists_before_point {half t d : Nat} (hm : Spaced m) (fine : 2 ^ 52 < t - half)
    (bits : t ≤ 2 ^ 53) (h : m + half * 2 ^ d < t * 2 ^ d) :
    ∃ v, Spaced v ∧ m + half * 2 ^ d ≤ v ∧ v < t * 2 ^ d := by
  have before : m ≤ (t - half - 1) * 2 ^ d := by
    refine le_pred_of_lt hm fine ?_
    rw [Nat.sub_mul]
    omega
  refine ⟨(t - 1) * 2 ^ d, spaced_shifted (Nat.le_trans (Nat.sub_le _ 1) bits) d, ?_,
    Nat.mul_lt_mul_of_pos_right (Nat.sub_lt (by omega) Nat.one_pos) (Nat.two_pow_pos d)⟩
  calc m + half * 2 ^ d ≤ (t - half - 1) * 2 ^ d + half * 2 ^ d := Nat.add_le_add_right before _
    _ = (t - 1) * 2 ^ d := by
      have : t - half - 1 + half = t - 1 := by omega
      rw [← Nat.add_mul, this]

/-- From one half on there is a magnitude between the exact sum and the next whole number, as long
as the spacing is below one half. -/
theorem exists_before_next {next : Nat} (hm : Spaced m) (two : 2 ≤ next) (hnext : next ≤ 2 ^ 52)
    (h : m + 2 ^ (e + 53) < next * 2 ^ (e + 54)) :
    ∃ v, Spaced v ∧ m + 2 ^ (e + 53) ≤ v ∧ v < next * 2 ^ (e + 54) := by
  -- the last power of two below `next` gives the grid
  obtain ⟨l, low, high⟩ : ∃ l, 2 ^ l ≤ next - 1 ∧ next - 1 < 2 ^ (l + 1) :=
    ⟨(next - 1).log2, Nat.log2_self_le (by omega), Nat.lt_log2_self⟩
  have hl : l < 52 := (Nat.pow_lt_pow_iff_right Nat.one_lt_two).1
    (Nat.lt_of_le_of_lt low (Nat.lt_of_lt_of_le (Nat.sub_lt (by omega) Nat.one_pos) hnext))
  obtain ⟨r, hr⟩ : ∃ r, l + r = 51 := ⟨51 - l, by omega⟩
  have hhalf : 2 ^ (e + 53) = 2 ^ r * 2 ^ (e + 2 + l) := by
    rw [← Nat.pow_add]
    congr 1
    omega
  have hwhole : next * 2 ^ (e + 54) = 2 * next * 2 ^ r * 2 ^ (e + 2 + l) := by
    rw [Nat.pow_succ, hhalf]
    ring
  have hbits : 2 ^ l * 2 ^ r = 2 ^ 51 := by
    rw [← Nat.pow_add, hr]
  have positive : 0 < 2 ^ r := Nat.two_pow_pos r
  have many : 2 ^ 52 < 2 * next * 2 ^ r - 2 ^ r := by
    have := Nat.mul_le_mul_right (2 ^ r) (show 2 * 2 ^ l + 2 ≤ 2 * next by omega)
    rw [Nat.add_mul, Nat.mul_assoc, hbits] at this
    omega
  have few : 2 * next * 2 ^ r ≤ 2 ^ 53 := by
    rw [Nat.pow_succ] at high
    have := Nat.mul_le_mul_right (2 ^ r) (show 2 * next ≤ 4 * 2 ^ l by omega)
    rw [Nat.mul_assoc 4, hbits] at this
    omega
  rw [hwhole, hhalf] at h ⊢
  exact exists_before_point hm many few h

/-! ### Half more, from left to right -/

/-- One half in spacings just below it. -/
theorem half_eq (e : Nat) : ((2 ^ (e + 53) : Nat) : Int) = 2 ^ 53 * (2 ^ e : Nat) := by
  rw [Nat.pow_add, Nat.mul_comm]
  exact Int.natCast_mul _ _

/-- One is two halves. -/
theorem one_eq (e : Nat) : ((2 ^ (e + 54) : Nat) : Int) = 2 * (2 ^ (e + 53) : Nat) := by
  rw [Nat.pow_succ']
  exact Int.natCast_mul _ _

/-- Far enough below zero the exact sum is a double, as it is nearer to zero than the value. -/
theorem placed_add_half_of_neg (hu : Placed u) (low : -(2 ^ 53 * (2 ^ (e + 53) : Nat)) ≤ u)
    (high : u ≤ -(2 ^ (e + 53) : Nat)) : Placed (u + (2 ^ (e + 53) : Nat)) := by
  have spaced := spaced_sub_half (e := e) hu (by omega) (by omega)
  generalize 2 ^ (e + 53) = half at *
  have same : (u + (half : Int)).natAbs = u.natAbs - half := by omega
  rwa [Placed, same]

/-- Where the spacing is one half, the exact sum is a double. -/
theorem placed_add_half_of_large (hu : Placed u) (low : 2 ^ 52 * (2 ^ (e + 53) : Nat) ≤ u)
    (high : u < 2 ^ 53 * (2 ^ (e + 53) : Nat)) : Placed (u + (2 ^ (e + 53) : Nat)) := by
  have spaced := spaced_add_half (e := e) hu (by omega) (by omega)
  generalize 2 ^ (e + 53) = half at *
  have same : (u + (half : Int)).natAbs = u.natAbs + half := by omega
  rwa [Placed, same]

/-- Next to zero the last double below one is as far from one as two of those below one half. -/
theorem hasFloor_zero (low : -(2 ^ (e + 53) : Nat) ≤ u)
    (high : u ≤ (2 ^ (e + 53) : Nat) - 2 * (2 ^ e : Nat)) :
    HasFloor (2 ^ (e + 54)) 0 (rounded (u + (2 ^ (e + 53) : Nat))) := by
  have last := placed_mul (k := 2 ^ 53 - 1) (by decide) (e + 1)
  have zero := placed_mul (k := 0) (by decide) (e + 54)
  have hhalf := half_eq e
  have hone := one_eq e
  have positive : 0 < 2 ^ e := Nat.two_pow_pos e
  exact hasFloor_rounded zero ⟨by omega, by omega⟩ last (by omega) (by omega)

/-- **Just below one half the sum is rounded up to one.** -/
theorem rounded_below_half :
    rounded ((2 ^ (e + 53) : Nat) - (2 ^ e : Nat) + (2 ^ (e + 53) : Nat)) =
      (2 ^ (e + 54) : Nat) := by
  have tie := roundUnits_tie (j := 2 ^ 53 - 1) (e := e) (by decide) (by decide)
  have hhalf := half_eq e
  have sum : ((2 ^ (e + 53) : Nat) - (2 ^ e : Nat) + (2 ^ (e + 53) : Nat) : Int) =
      signed false ((2 * (2 ^ 53 - 1) + 1) * 2 ^ e) := by
    change _ = (((2 * (2 ^ 53 - 1) + 1) * 2 ^ e : Nat) : Int)
    omega
  rw [sum, rounded_signed, tie, if_neg (by decide), Nat.sub_add_cancel (by decide), ← Nat.pow_add,
    Nat.add_left_comm]
  rfl

/-- From one half on, as long as there are doubles between whole numbers, rounding keeps the floor
of the sum. -/
theorem hasFloor_of_half_le (hu : Placed u) (low : (2 ^ (e + 53) : Nat) ≤ u)
    (high : u < 2 ^ 52 * (2 ^ (e + 53) : Nat))
    (h : HasFloor (2 ^ (e + 54)) n (u + (2 ^ (e + 53) : Nat))) :
    HasFloor (2 ^ (e + 54)) n (rounded (u + (2 ^ (e + 53) : Nat))) := by
  obtain ⟨m, rfl⟩ := Int.eq_ofNat_of_zero_le (Int.le_trans (Int.natCast_nonneg _) low)
  have hone := one_eq e
  have positive : (0 : Int) ≤ (2 ^ (e + 54) : Nat) := Int.natCast_nonneg _
  have above : 1 < n + 1 := Int.lt_of_mul_lt_mul_right
    (Int.lt_of_le_of_lt (show 1 * ((2 ^ (e + 54) : Nat) : Int) ≤ _ by omega) h.2) positive
  have below : n < 2 ^ 52 := Int.lt_of_mul_lt_mul_right
    (Int.lt_of_le_of_lt h.1 (show _ < 2 ^ 52 * ((2 ^ (e + 54) : Nat) : Int) by omega)) positive
  obtain ⟨next, hnext⟩ := Int.eq_ofNat_of_zero_le (show 0 ≤ n + 1 by omega)
  rw [HasFloor, hnext] at h
  have before : m + 2 ^ (e + 53) < next * 2 ^ (e + 54) := by exact_mod_cast h.2
  obtain ⟨v, hv, huv, hvnext⟩ := exists_before_next hu (by omega) (by omega) before
  refine ⟨le_rounded (placed_mul (by omega) _) h.1, ?_⟩
  rw [hnext]
  exact Int.lt_of_le_of_lt (rounded_le (v := v) hv (by exact_mod_cast huv))
    (by exact_mod_cast hvnext)

/-- **Half way between two whole numbers of 53 bits the sum goes to the even one.** -/
theorem rounded_tie (h : 2 ^ 52 ≤ k ∧ k < 2 ^ 53 ∨ -2 ^ 53 ≤ k ∧ k < -2 ^ 52) :
    rounded (k * (2 ^ (e + 54) : Nat) + (2 ^ (e + 53) : Nat)) =
      (k + k % 2) * (2 ^ (e + 54) : Nat) := by
  have hone := one_eq e
  rcases h with ⟨low, high⟩ | ⟨low, high⟩
  · obtain ⟨j, rfl⟩ := Int.eq_ofNat_of_zero_le (show 0 ≤ k by omega)
    have tie := roundUnits_tie (j := j) (e := e + 53) (by omega) (by omega)
    have sum : (j * (2 ^ (e + 54) : Nat) + (2 ^ (e + 53) : Nat) : Int) =
        signed false ((2 * j + 1) * 2 ^ (e + 53)) := by
      rw [hone]
      change _ = (((2 * j + 1) * 2 ^ (e + 53) : Nat) : Int)
      push_cast
      ring
    have even : ((if j % 2 = 0 then j else j + 1 : Nat) : Int) = j + j % 2 := by
      split <;> omega
    rw [sum, rounded_signed, tie, signed_mul, ← even]
    rfl
  · obtain ⟨j, hj⟩ := Int.eq_ofNat_of_zero_le (show 0 ≤ -k - 1 by omega)
    have tie := roundUnits_tie (j := j) (e := e + 53) (by omega) (by omega)
    have sum : (k * (2 ^ (e + 54) : Nat) + (2 ^ (e + 53) : Nat) : Int) =
        signed true ((2 * j + 1) * 2 ^ (e + 53)) := by
      rw [hone, show k = -(j : Int) - 1 by omega]
      change _ = -(((2 * j + 1) * 2 ^ (e + 53) : Nat) : Int)
      push_cast
      ring
    have even : -((if j % 2 = 0 then j else j + 1 : Nat) : Int) = k + k % 2 := by
      split <;> omega
    rw [sum, rounded_signed, tie, signed_mul, ← even]
    rfl

/-- Whole numbers of more than 53 bits are even. -/
theorem even_of_placed (h : Placed (k * (2 ^ (e + 54) : Nat))) (hk : 2 ^ 53 ≤ k.natAbs) :
    k % 2 = 0 := by
  rw [Placed, Int.natAbs_mul, Int.natAbs_natCast] at h
  have large : 2 ^ (52 + (e + 55)) ≤ k.natAbs * 2 ^ (e + 54) := by
    have := Nat.mul_le_mul_right (2 ^ (e + 54)) hk
    rwa [← Nat.pow_add, show 53 + (e + 54) = 52 + (e + 55) by omega] at this
  have hdvd := two_pow_dvd_of_le h large
  rw [Nat.pow_succ' (n := e + 54)] at hdvd
  have := Nat.dvd_of_mul_dvd_mul_right (Nat.two_pow_pos _) hdvd
  omega

/-- Beyond two to the 53rd one half is lost. -/
theorem hasFloor_of_even (hu : Placed (k * (2 ^ (e + 54) : Nat))) (hk : 2 ^ 53 ≤ k.natAbs)
    (hk' : 2 ^ 53 ≤ (k + 1).natAbs) :
    HasFloor (2 ^ (e + 54)) k (rounded (k * (2 ^ (e + 54) : Nat) + (2 ^ (e + 53) : Nat))) := by
  have positive : 0 < 2 ^ (e + 53) := Nat.two_pow_pos _
  have even := even_of_placed hu hk
  have nearest := rounded_nearest hu (k * (2 ^ (e + 54) : Nat) + (2 ^ (e + 53) : Nat))
  have placed := placed_rounded (k * (2 ^ (e + 54) : Nat) + (2 ^ (e + 53) : Nat))
  have hnext : (k + 1) * ((2 ^ (e + 54) : Nat) : Int) =
      k * (2 ^ (e + 54) : Nat) + 2 * (2 ^ (e + 53) : Nat) := by
    rw [Int.add_mul, Int.one_mul, ← one_eq]
  -- the next whole number is odd, so it is no double
  have apart : rounded (k * (2 ^ (e + 54) : Nat) + (2 ^ (e + 53) : Nat)) ≠
      (k + 1) * (2 ^ (e + 54) : Nat) := by
    intro same
    rw [same] at placed
    have := even_of_placed placed hk'
    omega
  rw [hnext] at apart
  rw [HasFloor, hnext]
  generalize k * ((2 ^ (e + 54) : Nat) : Int) = whole at *
  generalize rounded (whole + (2 ^ (e + 53) : Nat)) = result at *
  omega

/-! ### All positions -/

/-- The positions where the rounded sum has another floor than the exact one. -/
def SlipsAt (e : Nat) (u : Int) : Prop :=
  u = (2 ^ (e + 53) : Nat) - (2 ^ e : Nat) ∨
    ∃ k : Int, k % 2 = 1 ∧ 2 ^ 52 < k.natAbs ∧ k.natAbs < 2 ^ 53 ∧ u = k * (2 ^ (e + 54) : Nat)

/-- Among the smaller values only the last double below one half slips. -/
theorem slipsAt_near (low : -(2 ^ 53 * (2 ^ (e + 53) : Nat)) ≤ u)
    (high : u < 2 ^ 53 * (2 ^ (e + 53) : Nat)) :
    SlipsAt e u ↔ u = (2 ^ (e + 53) : Nat) - (2 ^ e : Nat) := by
  refine ⟨?_, .inl⟩
  rintro (h | ⟨k, -, hk, -, rfl⟩)
  · exact h
  · have hone := one_eq e
    have positive : (0 : Int) < (2 ^ (e + 54) : Nat) := Int.natCast_pos.2 (Nat.two_pow_pos _)
    have below : k < 2 ^ 52 := Int.lt_of_mul_lt_mul_right
      (show _ < 2 ^ 52 * ((2 ^ (e + 54) : Nat) : Int) by omega) (Int.le_of_lt positive)
    have above : -2 ^ 52 ≤ k := Int.le_of_mul_le_mul_right
      (show -2 ^ 52 * ((2 ^ (e + 54) : Nat) : Int) ≤ _ by omega) positive
    omega

/-- Among the whole numbers with 53 bits or more the odd ones with 53 bits slip. -/
theorem slipsAt_far (hk : 2 ^ 52 ≤ k.natAbs) :
    SlipsAt e (k * (2 ^ (e + 54) : Nat)) ↔ k % 2 = 1 ∧ k.natAbs < 2 ^ 53 := by
  have positive : 0 < 2 ^ (e + 54) := Nat.two_pow_pos _
  constructor
  · rintro (h | ⟨k', odd, -, hk', h⟩)
    · have large := Nat.mul_le_mul_right (2 ^ (e + 54)) hk
      have size := congrArg Int.natAbs h
      rw [Int.natAbs_mul, Int.natAbs_natCast] at size
      rw [size] at large
      have hhalf := half_eq e
      have hone := one_eq e
      omega
    · obtain rfl := Int.eq_of_mul_eq_mul_right (by omega) h
      exact ⟨odd, hk'⟩
  · rintro ⟨odd, hk'⟩
    exact .inr ⟨k, odd, by omega, hk', rfl⟩

/-- Just below one half lies one magnitude, and then the next. -/
theorem le_of_lt_half (hu : Placed u) (high : u < (2 ^ (e + 53) : Nat))
    (hne : u ≠ (2 ^ (e + 53) : Nat) - (2 ^ e : Nat)) :
    u ≤ (2 ^ (e + 53) : Nat) - 2 * (2 ^ e : Nat) := by
  have hhalf := half_eq e
  rcases Int.lt_or_le u 0 with hneg | hpos
  · omega
  · obtain ⟨m, rfl⟩ := Int.eq_ofNat_of_zero_le hpos
    have first : m ≤ (2 ^ 53 - 1) * 2 ^ e := le_pred_of_lt hu (by decide) (by omega)
    have second : m ≤ (2 ^ 53 - 1 - 1) * 2 ^ e := le_pred_of_lt hu (by decide) (by omega)
    omega

/-- Adding one half to `u` and rounding keeps the floor `n`, or slips to the next. -/
def KeepsFloor (e : Nat) (n u : Int) : Prop :=
  (¬ SlipsAt e u → HasFloor (2 ^ (e + 54)) n (rounded (u + (2 ^ (e + 53) : Nat)))) ∧
    (SlipsAt e u → HasFloor (2 ^ (e + 54)) (n + 1) (rounded (u + (2 ^ (e + 53) : Nat))))

/-- **The smaller values keep the floor of the sum or slip.** -/
theorem keepsFloor_near (hu : Placed u) (low : -(2 ^ 53 * (2 ^ (e + 53) : Nat)) ≤ u)
    (high : u < 2 ^ 53 * (2 ^ (e + 53) : Nat))
    (h : HasFloor (2 ^ (e + 54)) n (u + (2 ^ (e + 53) : Nat))) : KeepsFloor e n u := by
  rw [KeepsFloor, slipsAt_near low high]
  have hone := one_eq e
  have hhalf := half_eq e
  have small : 0 < 2 ^ e := Nat.two_pow_pos e
  rcases Int.le_total u (-(2 ^ (e + 53) : Nat)) with neg | neg
  · have placed := placed_add_half_of_neg hu low neg
    exact ⟨fun _ => hasFloor_of_placed placed h, fun slips => by omega⟩
  rcases Int.lt_or_le u (2 ^ (e + 53) : Nat) with below | above
  · have positive : (0 : Int) ≤ (2 ^ (e + 54) : Nat) := Int.natCast_nonneg _
    have one : n < 1 := Int.lt_of_mul_lt_mul_right (Int.lt_of_le_of_lt h.1 (by omega)) positive
    have zero : 0 < n + 1 :=
      Int.lt_of_mul_lt_mul_right (Int.lt_of_le_of_lt (by omega) h.2) positive
    obtain rfl : n = 0 := by omega
    refine ⟨fun keeps => hasFloor_zero neg (le_of_lt_half hu below keeps), ?_⟩
    rintro rfl
    rw [rounded_below_half]
    exact ⟨by omega, by omega⟩
  rcases Int.lt_or_le u (2 ^ 52 * (2 ^ (e + 53) : Nat)) with middle | large
  · exact ⟨fun _ => hasFloor_of_half_le hu above middle h, fun slips => by omega⟩
  · have placed := placed_add_half_of_large hu large high
    exact ⟨fun _ => hasFloor_of_placed placed h, fun slips => by omega⟩

/-- **So do the larger ones, which are whole numbers.** -/
theorem keepsFloor_far (hu : Placed (k * (2 ^ (e + 54) : Nat)))
    (hk : 2 ^ 52 ≤ k ∨ k < -2 ^ 52) : KeepsFloor e k (k * (2 ^ (e + 54) : Nat)) := by
  have positive : (0 : Int) < (2 ^ (e + 54) : Nat) := Int.natCast_pos.2 (Nat.two_pow_pos _)
  rw [KeepsFloor, slipsAt_far (by omega)]
  by_cases beyond : 2 ^ 53 ≤ k.natAbs ∧ 2 ^ 53 ≤ (k + 1).natAbs
  · exact ⟨fun _ => hasFloor_of_even hu beyond.1 beyond.2, fun slips => by omega⟩
  · rw [rounded_tie (by omega)]
    refine ⟨fun keeps => ?_, fun slips => ?_⟩
    · have even : k % 2 = 0 := by omega
      rw [even, Int.add_zero]
      exact hasFloor_mul positive k
    · rw [slips.1]
      exact hasFloor_mul positive (k + 1)

/-- **The rounded sum has the floor of the exact one, unless it slips to the next.** -/
theorem keepsFloor (hu : Placed u) (h : HasFloor (2 ^ (e + 54)) n (u + (2 ^ (e + 53) : Nat))) :
    KeepsFloor e n u := by
  have hone := one_eq e
  have small : 0 < 2 ^ (e + 53) := Nat.two_pow_pos _
  by_cases near : -(2 ^ 53 * (2 ^ (e + 53) : Nat)) ≤ u ∧ u < 2 ^ 53 * (2 ^ (e + 53) : Nat)
  · exact keepsFloor_near hu near.1 near.2 h
  -- from two to the 52nd on there are whole numbers only
  have large : 2 ^ (52 + (e + 54)) ≤ u.natAbs := by
    rw [Nat.pow_add]
    omega
  obtain ⟨k, hk⟩ : ((2 ^ (e + 54) : Nat) : Int) ∣ u :=
    Int.natCast_dvd.2 (two_pow_dvd_of_le hu large)
  rw [Int.mul_comm] at hk
  subst hk
  have positive : (0 : Int) < (2 ^ (e + 54) : Nat) := Int.natCast_pos.2 (Nat.two_pow_pos _)
  have below : n < k + 1 := Int.lt_of_mul_lt_mul_right (a := ((2 ^ (e + 54) : Nat) : Int))
    (Int.lt_of_le_of_lt h.1 (by rw [Int.add_mul]; omega)) (Int.le_of_lt positive)
  have above : k < n + 1 := Int.lt_of_mul_lt_mul_right (a := ((2 ^ (e + 54) : Nat) : Int))
    (Int.lt_of_le_of_lt (by omega) h.2) (Int.le_of_lt positive)
  obtain rfl : n = k := by omega
  refine keepsFloor_far hu ?_
  rcases Int.lt_or_le (n * (2 ^ (e + 54) : Nat)) (-(2 ^ 53 * (2 ^ (e + 53) : Nat))) with neg | pos
  · exact .inr (Int.lt_of_mul_lt_mul_right (a := ((2 ^ (e + 54) : Nat) : Int)) (by omega)
      (Int.le_of_lt positive))
  · exact .inl (Int.le_of_mul_le_mul_right (a := ((2 ^ (e + 54) : Nat) : Int)) (by omega) positive)

/-! ### The function -/

/-- The numbers that rounding takes to the whole number above the nearest one: the last double
below one half, and the odd whole numbers with 53 bits. -/
def Slips (x : ℚ) : Prop :=
  x = 1 / 2 - 1 / 2 ^ 54 ∨ ∃ k : ℤ, Odd k ∧ 2 ^ 52 < |k| ∧ |k| < 2 ^ 53 ∧ x = k

/-- One and one half in units. -/
theorem exists_units : ∃ e, unitsPerOne = 2 ^ (e + 54) ∧ Nat.pow 2 1073 = 2 ^ (e + 53) :=
  ⟨1020, by decide +kernel⟩

/-- To slip as a number is to slip at its position. -/
theorem slips_iff (hone : unitsPerOne = 2 ^ (e + 54)) (u : ℤ) :
    Slips (u / unitsPerOne) ↔ SlipsAt e u := by
  have positive : (0 : ℚ) < 2 ^ e := by positivity
  have units : (unitsPerOne : ℚ) = 2 ^ 54 * 2 ^ e := by
    rw [hone]
    push_cast
    ring
  have whole (k : ℤ) : (u : ℚ) / unitsPerOne = k ↔ u = k * (2 ^ (e + 54) : Nat) := by
    rw [div_eq_iff (by rw [units]; positivity), hone]
    exact_mod_cast Iff.rfl
  have half : (u : ℚ) / unitsPerOne = 1 / 2 - 1 / 2 ^ 54 ↔
      u = (2 ^ (e + 53) : Nat) - (2 ^ e : Nat) := by
    have value : (1 / 2 - 1 / 2 ^ 54 : ℚ) * (2 ^ 54 * 2 ^ e) =
        ((2 ^ (e + 53) : Nat) - (2 ^ e : Nat) : ℤ) := by
      push_cast
      ring
    rw [div_eq_iff (by rw [units]; positivity), units, value, Int.cast_inj]
  rw [Slips, SlipsAt, half]
  refine or_congr Iff.rfl (exists_congr fun k => ?_)
  rw [whole, Int.odd_iff, Int.abs_eq_natAbs]
  exact and_congr Iff.rfl (and_congr (by omega) (and_congr (by omega) Iff.rfl))

/-- The floor of the exact sum is the nearest whole number, halves going up. -/
theorem hasFloor_iff (hone : unitsPerOne = 2 ^ (e + 54)) (n u : ℤ) :
    HasFloor (2 ^ (e + 54)) n (u + (2 ^ (e + 53) : Nat)) ↔
      (n : ℚ) - 1 / 2 ≤ u / unitsPerOne ∧ (u : ℚ) / unitsPerOne < n + 1 / 2 := by
  have positive : (0 : ℚ) < 2 ^ (e + 53) := by positivity
  have units : (unitsPerOne : ℚ) = 2 * 2 ^ (e + 53) := by
    rw [hone]
    push_cast
    ring
  rw [HasFloor, one_eq, le_div_iff₀ (by rw [units]; positivity),
    div_lt_iff₀ (by rw [units]; positivity), units, ← Int.cast_le (R := ℚ), ← Int.cast_lt (R := ℚ)]
  push_cast
  constructor
  · rintro ⟨low, high⟩
    exact ⟨by linarith, by linarith⟩
  · rintro ⟨low, high⟩
    exact ⟨by linarith, by linarith⟩

/-- A double at a whole number denotes it. -/
theorem exact_of_position {x : Double} (hx : x.isFinite = true)
    (h : x.position = some (k * unitsPerOne)) : x.exact = .fraction k := by
  obtain ⟨negative, units, fits, rfl⟩ := exists_eq_finite hx
  rw [position, Option.some.injEq] at h
  rw [exact, h, Int.cast_mul, Int.cast_natCast,
    mul_div_cancel_right₀ _ (Nat.cast_ne_zero.2 (Nat.ne_of_gt unitsPerOne_pos))]

/-- A number is rounded to the floor of the rounded sum. -/
theorem position_round {negative : Bool} {units : Nat} {fits : Representable units}
    (h : HasFloor unitsPerOne k (rounded (signed negative units + (Nat.pow 2 1073 : Nat)))) :
    (finite negative units fits).round.position = some (k * unitsPerOne) := by
  have hsum : (finite negative units fits + half).isFinite = true := isFinite_add_half rfl
  rw [round]
  rw [half, ofQuotient_of_representable half_spec.1] at hsum ⊢
  have place := position_add hsum
  obtain ⟨sign, sum, fits', heq⟩ := exists_eq_finite hsum
  rw [heq, position, Option.some.injEq] at place
  rw [heq]
  refine position_floor ?_
  rw [place]
  exact h

/-- **Rounding gives the nearest whole number, halves going up, unless it slips to the next.** -/
theorem exact_round {x : Double} {q : ℚ} (hx : x.exact = .fraction q) (low : (n : ℚ) - 1 / 2 ≤ q)
    (high : q < n + 1 / 2) :
    (¬ Slips q → x.round.exact = .fraction n) ∧
      (Slips q → x.round.exact = .fraction (n + 1 : ℤ)) := by
  cases x with
  | nan => cases hx
  | infinity negative => cases hx
  | finite negative units fits =>
    obtain ⟨e, hone, hhalf⟩ := exists_units
    obtain rfl : (signed negative units : ℚ) / unitsPerOne = q := Exact.fraction.inj hx
    have keeps := keepsFloor (placed_signed fits.2) ((hasFloor_iff hone n _).2 ⟨low, high⟩)
    rw [KeepsFloor, ← slips_iff hone, ← hhalf, ← hone] at keeps
    have hround : (finite negative units fits).round.isFinite = true := isFinite_round rfl
    exact ⟨fun h => exact_of_position hround (position_round (keeps.1 h)),
      fun h => exact_of_position hround (position_round (keeps.2 h))⟩

end Double

namespace Formula

open Double

/-- A call of `round` rounds the value of its argument. -/
theorem eval_round {v : Vocabulary} {bindings : Bindings} {name : String} {arg : Expr} {x : Double}
    (hname : v.findFunction? name = some .round) (hx : arg.eval v bindings = .ok x) :
    (Expr.call name [arg]).eval v bindings = .ok x.round := by
  have values : Expr.evalAll v bindings [arg] = .ok [x] := Expr.evalAll_cons hx rfl
  rw [Expr.eval_call hname values rfl]
  exact checked_of_isFinite (isFinite_round (Expr.isFinite_of_eval hx)) _ _

/-- **A call of `round` gives the nearest whole number, halves going up, exactly for the numbers
that do not slip; the others it takes to the whole number above.** -/
theorem round_is_nearest_unless_slips {v : Vocabulary} {bindings : Bindings} {name : String}
    {arg : Expr} {x : Double} (hname : v.findFunction? name = some .round)
    (hx : arg.eval v bindings = .ok x) :
    ∃ (q : ℚ) (n : ℤ) (r : Double), x.exact = .fraction q ∧
      n - 1 / 2 ≤ q ∧ q < n + 1 / 2 ∧ (Expr.call name [arg]).eval v bindings = .ok r ∧
      (r.exact = .fraction n ↔ ¬ Slips q) ∧ (Slips q → r.exact = .fraction (n + 1)) := by
  obtain ⟨negative, units, fits, rfl⟩ := exists_eq_finite (Expr.isFinite_of_eval hx)
  obtain ⟨q, hq⟩ : ∃ q, (finite negative units fits).exact = .fraction q := ⟨_, rfl⟩
  obtain ⟨n, low, high⟩ : ∃ n : ℤ, (n : ℚ) - 1 / 2 ≤ q ∧ q < n + 1 / 2 := by
    have below := Int.floor_le (q + 1 / 2)
    have above := Int.lt_floor_add_one (q + 1 / 2)
    exact ⟨⌊q + 1 / 2⌋, by linarith, by linarith⟩
  obtain ⟨keeps, slips⟩ := exact_round hq low high
  rw [Int.cast_add, Int.cast_one] at slips
  refine ⟨q, n, _, hq, low, high, eval_round hname hx, ⟨fun same hslips => ?_, keeps⟩, slips⟩
  have next := Exact.fraction.inj (same.symm.trans (slips hslips))
  linarith

/-- Next to two to the 52nd an odd number is not its own rounding. -/
theorem round_is_nearest_unless_slips_odd :
    ∃ r, (Expr.call "round" [.number (ofNat 4503599627370497)]).eval .full (fun _ => 0) = .ok r ∧
      r.exact = .fraction 4503599627370498 := by
  have hfinite : (ofNat 4503599627370497).isFinite = true := by decide +kernel
  have hplace : (ofNat 4503599627370497).position =
      some ((4503599627370497 : Int) * unitsPerOne) := by decide +kernel
  obtain ⟨q, n, r, hq, low, high, hcall, -, slips⟩ :=
    @round_is_nearest_unless_slips .full (fun _ => 0) "round"
      (.number (ofNat 4503599627370497)) _ (by decide +kernel) (checked_of_isFinite hfinite _ _)
  obtain rfl := Exact.fraction.inj ((exact_of_position hfinite hplace).symm.trans hq)
  have odd : Slips ((4503599627370497 : ℤ) : ℚ) :=
    .inr ⟨4503599627370497, by decide, by decide, by decide, rfl⟩
  have below : (n : ℚ) < (4503599627370498 : ℤ) := by
    push_cast at low ⊢
    linarith
  have above : ((4503599627370496 : ℤ) : ℚ) < n := by
    push_cast at high ⊢
    linarith
  obtain rfl : n = 4503599627370497 := by
    have := Int.cast_lt.1 below
    have := Int.cast_lt.1 above
    omega
  refine ⟨r, hcall, (slips odd).trans ?_⟩
  norm_num

end Formula
end GuildRating
