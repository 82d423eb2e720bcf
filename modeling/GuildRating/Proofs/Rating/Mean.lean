/-
# The mean that is meant

The weighted mean divides every weight by the largest one before it adds anything up, looks at all
weights before it leaves playlists out, and takes the largest among those that are left.  Read on
fractions, all this comes to the plain mean, the sum of the weighted values by the sum of the
weights of the playlists with enough games (`weighted_fraction`); no division is by zero, as the
largest weight is above it (`top_pos_iff`) and the scaled weights add up to one at least
(`total_mem`).  What is known of a plain mean follows: it lies between the values, it is the same
for weights in the same proportion, and it never goes down where a value goes up.  Whether there is
a mean at all does not depend on rounding (`weighted_exact_eq_error_iff`), so doubles fail as their
fractions do.
-/

import Mathlib.Algebra.Order.BigOperators.Group.List
import Mathlib.Algebra.BigOperators.Ring.List
import Mathlib.Tactic.Linarith
import GuildRating.Proofs.Rating.Exact

namespace GuildRating
namespace Mean

/-! ### The steps of a mean -/

section Steps

variable {α : Type} [Quantity α] {weights values : PerPlaylist α}
  {minGames games : PerPlaylist UInt32} {p : Playlist}

/-- The playlists with enough games. -/
def counted (minGames games : PerPlaylist UInt32) : List Playlist :=
  Playlist.all.filter fun p => minGames.get p ≤ games.get p

/-- A playlist counts if its games reach its threshold. -/
theorem mem_counted : p ∈ counted minGames games ↔ minGames.get p ≤ games.get p := by
  rw [counted, List.mem_filter, decide_eq_true_eq]
  exact and_iff_right p.mem_all

theorem length_counted_le : (counted minGames games).length ≤ 4 := List.length_filter_le _ _

/-- The largest weight, or zero if no weight is above it. -/
def largest (pairs : List (α × α)) : α := (pairs.map (·.1)).foldl larger 0

/-- A sum of values by their scaled weights and a sum of scaled weights, after these pairs are added
to them. -/
def sumsFrom (largest : α) (start : α × α) (pairs : List (α × α)) : α × α :=
  pairs.foldl (fun (sum, total) (weight, value) =>
    let scaled := weight / largest
    (sum + scaled * value, total + scaled)) start

theorem sumsFrom_cons (largest sum total weight value : α) (pairs : List (α × α)) :
    sumsFrom largest (sum, total) ((weight, value) :: pairs) =
      sumsFrom largest (sum + weight / largest * value, total + weight / largest) pairs := rfl

/-- The sum of the values by their scaled weights, and the sum of the scaled weights. -/
def sums (largest : α) (pairs : List (α × α)) : α × α := sumsFrom largest (0, 0) pairs

/-- The largest weight is taken from the playlists that count. -/
theorem largest_qualifying (weights values : PerPlaylist α) (minGames games : PerPlaylist UInt32) :
    largest (qualifying weights minGames games values) =
      ((counted minGames games).map weights.get).foldl larger 0 := by
  rw [largest, qualifying, List.map_map]
  rfl

/-- No weight is bad if all of them are weights. -/
theorem firstBad?_eq_none_iff :
    firstBad? weights = none ↔ ∀ p, Quantity.isWeight (weights.get p) = true := by
  rw [firstBad?, List.find?_eq_none]
  simp only [Bool.not_eq_true', Bool.not_eq_false]
  exact ⟨fun h p => h p p.mem_all, fun h p _ => h p⟩

/-- The outcome of a mean: all weights are looked at, then the largest one that counts. -/
theorem weighted_eq : weighted weights minGames games values =
    match firstBad? weights with
    | some p => .error (.badWeight p)
    | none =>
      let pairs := qualifying weights minGames games values
      if Quantity.less 0 (largest pairs) then
        .ok ((sums (largest pairs) pairs).1 / (sums (largest pairs) pairs).2)
      else .error .noneQualifies := rfl

/-- A bad weight is the first thing that a mean fails over, and it names the first one. -/
theorem weighted_eq_badWeight_iff :
    weighted weights minGames games values = .error (.badWeight p) ↔
      firstBad? weights = some p := by
  rw [weighted_eq]
  cases firstBad? weights with
  | some q => simp
  | none =>
    dsimp only
    split
    · simp
    · simp

/-- Else it fails if no playlist that counts has a weight above zero. -/
theorem weighted_eq_noneQualifies_iff :
    weighted weights minGames games values = .error .noneQualifies ↔
      firstBad? weights = none ∧
        Quantity.less 0 (((counted minGames games).map weights.get).foldl larger 0) = false := by
  rw [weighted_eq, ← largest_qualifying weights values]
  cases firstBad? weights with
  | some q => simp
  | none =>
    dsimp only
    split
    · next h => simp [h]
    · next h => simp [h]

/-- A mean that there is takes weights that are weights. -/
theorem isWeight_of_weighted_eq_ok {mean : α}
    (h : weighted weights minGames games values = .ok mean) (p : Playlist) :
    Quantity.isWeight (weights.get p) = true := by
  rw [weighted_eq] at h
  cases hbad : firstBad? weights with
  | some q =>
    rw [hbad] at h
    cases h
  | none => exact firstBad?_eq_none_iff.1 hbad p

/-- A bad weight is reported exactly if there is one. -/
theorem exists_badWeight_iff :
    (∃ p, weighted weights minGames games values = .error (.badWeight p)) ↔
      ∃ p, Quantity.isWeight (weights.get p) = false := by
  simp only [weighted_eq_badWeight_iff]
  rw [← Option.isSome_iff_exists, ← Option.ne_none_iff_isSome, ne_eq, firstBad?_eq_none_iff,
    not_forall]
  simp only [Bool.not_eq_true]

/-- A mean sees of the playlists that do not count only whether their weights are weights. -/
theorem weighted_congr {weights' values' : PerPlaylist α}
    (hweights : ∀ p, Quantity.isWeight (weights.get p) = Quantity.isWeight (weights'.get p))
    (hcounted : ∀ p, minGames.get p ≤ games.get p →
      weights.get p = weights'.get p ∧ values.get p = values'.get p) :
    weighted weights minGames games values = weighted weights' minGames games values' := by
  have first : firstBad? weights = firstBad? weights' := by
    rw [firstBad?, firstBad?]
    simp only [hweights]
  have same : qualifying weights minGames games values =
      qualifying weights' minGames games values' := by
    refine List.map_congr_left fun p hp => ?_
    obtain ⟨hweight, hvalue⟩ := hcounted p (mem_counted.1 hp)
    rw [hweight, hvalue]
  rw [weighted_eq, weighted_eq, first, same]

end Steps

/-! ### Doubles fail as their fractions do -/

section Doubles

variable {weights values : PerPlaylist Double} {minGames games : PerPlaylist UInt32}

theorem isFinite_of_isWeight {x : Double} (h : Quantity.isWeight x = true) :
    x.isFinite = true := by
  rw [Quantity.isWeight, Bool.and_eq_true] at h
  exact h.1

/-- The largest of finite doubles is the largest of their fractions. -/
theorem exact_foldl_larger (xs : List Double) {start : Double} (hstart : start.isFinite = true)
    (hxs : ∀ x ∈ xs, x.isFinite = true) :
    (xs.foldl larger start).isFinite = true ∧
      (xs.foldl larger start).exact = (xs.map Double.exact).foldl larger start.exact := by
  induction xs generalizing start with
  | nil => exact ⟨hstart, rfl⟩
  | cons x xs ih =>
    obtain ⟨hx, hxs⟩ := List.forall_mem_cons.1 hxs
    have hnext : (larger start x).isFinite = true := by
      rw [larger]
      split
      · exact hx
      · exact hstart
    rw [List.map_cons, List.foldl_cons, List.foldl_cons, ← Double.larger_exact hstart hx]
    exact ih hnext hxs

/-- The first bad weight on doubles is the first one on fractions. -/
theorem firstBad?_exact : firstBad? (weights.map Double.exact) = firstBad? weights := by
  rw [firstBad?, firstBad?]
  congr 1
  funext p
  rw [PerPlaylist.get_map, Double.isWeight_exact]

/-- Zero lies below the largest weight that counts exactly if it does for the fractions. -/
theorem less_largest_exact (h : firstBad? weights = none) :
    Quantity.less 0
        (((counted minGames games).map (weights.map Double.exact).get).foldl larger 0) =
      Double.less 0 (((counted minGames games).map weights.get).foldl larger 0) := by
  have finite : ∀ x ∈ (counted minGames games).map weights.get, x.isFinite = true := by
    intro x hx
    obtain ⟨p, -, rfl⟩ := List.mem_map.1 hx
    exact isFinite_of_isWeight (firstBad?_eq_none_iff.1 h p)
  obtain ⟨hlargest, hread⟩ := exact_foldl_larger _ (rfl : (0 : Double).isFinite = true) finite
  rw [← Double.less_exact rfl hlargest, hread, Double.zero_exact, PerPlaylist.get_map_eq_comp,
    List.map_map]

/-- **Rounding does not decide whether there is a mean.** -/
theorem weighted_exact_eq_error_iff {e : Error} :
    weighted (weights.map Double.exact) minGames games (values.map Double.exact) = .error e ↔
      weighted weights minGames games values = .error e := by
  cases e with
  | badWeight p =>
    rw [weighted_eq_badWeight_iff, weighted_eq_badWeight_iff, firstBad?_exact]
  | noneQualifies =>
    rw [weighted_eq_noneQualifies_iff, weighted_eq_noneQualifies_iff, firstBad?_exact]
    refine and_congr_right fun h => ?_
    rw [less_largest_exact h]
    rfl

end Doubles

/-! ### Sums of fractions -/

section Fractions

variable {weights values : PerPlaylist ℚ} {minGames games : PerPlaylist UInt32}
  {playlists : List Playlist}

/-- The largest of fractions is one of them or where the search began, and not below any. -/
theorem foldl_max_spec (xs : List ℚ) (start : ℚ) :
    start ≤ xs.foldl max start ∧ (∀ x ∈ xs, x ≤ xs.foldl max start) ∧
      (xs.foldl max start = start ∨ xs.foldl max start ∈ xs) := by
  induction xs generalizing start with
  | nil => exact ⟨le_rfl, List.forall_mem_nil _, .inl rfl⟩
  | cons x xs ih =>
    obtain ⟨hstart, hxs, hmem⟩ := ih (max start x)
    rw [List.foldl_cons, List.forall_mem_cons]
    refine ⟨(le_max_left _ _).trans hstart, ⟨(le_max_right _ _).trans hstart, hxs⟩, ?_⟩
    rcases hmem with h | h
    · rw [h]
      rcases max_choice start x with h' | h'
      · exact .inl h'
      · rw [h']
        exact .inr List.mem_cons_self
    · exact .inr (List.mem_cons_of_mem x h)

/-- On fractions the largest weight is found as a maximum. -/
theorem foldl_larger_fraction (xs : List ℚ) (start : ℚ) :
    (xs.map Exact.fraction).foldl larger (.fraction start) = .fraction (xs.foldl max start) := by
  induction xs generalizing start with
  | nil => rfl
  | cons x xs ih => rw [List.map_cons, List.foldl_cons, List.foldl_cons, Exact.larger_fraction, ih]

/-- The largest weight of the playlists, or zero if no weight is above it. -/
def top (weights : PerPlaylist ℚ) (playlists : List Playlist) : ℚ :=
  (playlists.map weights.get).foldl max 0

/-- The largest weight is never below zero. -/
theorem top_nonneg : 0 ≤ top weights playlists := (foldl_max_spec _ 0).1

/-- No weight of the playlists is above the largest one. -/
theorem le_top {p : Playlist} (h : p ∈ playlists) : weights.get p ≤ top weights playlists :=
  (foldl_max_spec _ 0).2.1 _ (List.mem_map_of_mem h)

/-- A largest weight above zero is the weight of a playlist. -/
theorem exists_eq_top (h : 0 < top weights playlists) :
    ∃ p ∈ playlists, weights.get p = top weights playlists := by
  rcases (foldl_max_spec (playlists.map weights.get) 0).2.2 with hzero | hmem
  · exact absurd hzero h.ne'
  · exact List.mem_map.1 hmem

/-- The largest weight is above zero if some weight is. -/
theorem top_pos_iff : 0 < top weights playlists ↔ ∃ p ∈ playlists, 0 < weights.get p := by
  constructor
  · intro h
    obtain ⟨p, hp, htop⟩ := exists_eq_top h
    exact ⟨p, hp, htop ▸ h⟩
  · rintro ⟨p, hp, hpos⟩
    exact hpos.trans_le (le_top hp)

/-- The weights and values of the playlists, as a mean sees them. -/
def fractions (weights values : PerPlaylist ℚ) (playlists : List Playlist) :
    List (Exact × Exact) :=
  playlists.map fun p => (.fraction (weights.get p), .fraction (values.get p))

/-- What qualifies, read on fractions, are the weights and values of the playlists that count. -/
theorem qualifying_fractions :
    qualifying (weights.map Exact.fraction) minGames games (values.map Exact.fraction) =
      fractions weights values (counted minGames games) := by
  rw [qualifying, fractions, counted]
  simp only [PerPlaylist.get_map]

/-- The largest weight, read on fractions, is the top one. -/
theorem largest_fractions :
    largest (fractions weights values playlists) = .fraction (top weights playlists) := by
  rw [largest, fractions, List.map_map, top, ← foldl_larger_fraction, List.map_map]
  rfl

/-- Adding fractions to fractions gives the fractions of the sums. -/
theorem sumsFrom_fractions {largest : ℚ} (h : largest ≠ 0) (sum total : ℚ) :
    sumsFrom (.fraction largest) (.fraction sum, .fraction total)
        (fractions weights values playlists) =
      (.fraction (sum + (playlists.map fun p => weights.get p / largest * values.get p).sum),
        .fraction (total + (playlists.map fun p => weights.get p / largest).sum)) := by
  induction playlists generalizing sum total with
  | nil => simp [fractions, sumsFrom]
  | cons p playlists ih =>
    rw [fractions] at ih ⊢
    rw [List.map_cons, sumsFrom_cons, Exact.fraction_div _ h, Exact.fraction_mul,
      Exact.fraction_add, Exact.fraction_add, ih]
    simp only [List.map_cons, List.sum_cons, add_assoc]

/-- The two sums that the mean divides, read on fractions. -/
theorem sums_fractions {largest : ℚ} (h : largest ≠ 0) :
    sums (.fraction largest) (fractions weights values playlists) =
      (.fraction (playlists.map fun p => weights.get p / largest * values.get p).sum,
        .fraction (playlists.map fun p => weights.get p / largest).sum) := by
  have start := @sumsFrom_fractions weights values playlists _ h 0 0
  rwa [zero_add, zero_add] at start

/-! ### The plain mean -/

/-- The mean that is meant: the sum of the weighted values by the sum of the weights. -/
def plain (weights values : PerPlaylist ℚ) (playlists : List Playlist) : ℚ :=
  (playlists.map fun p => weights.get p * values.get p).sum / (playlists.map weights.get).sum

/-- Weights in the same proportion have the same mean. -/
theorem plain_mul {factor : ℚ} (h : factor ≠ 0) :
    plain (weights.map (factor * ·)) values playlists = plain weights values playlists := by
  rw [plain, PerPlaylist.get_map_eq_comp]
  simp only [Function.comp_def, mul_assoc]
  rw [List.sum_map_mul_left, List.sum_map_mul_left, mul_div_mul_left _ _ h]
  rfl

/-- In particular dividing all weights by the largest one leaves the mean as it is. -/
theorem plain_scaled {largest : ℚ} (h : largest ≠ 0) :
    (playlists.map fun p => weights.get p / largest * values.get p).sum /
      (playlists.map fun p => weights.get p / largest).sum = plain weights values playlists := by
  have scaled p : weights.get p / largest = (weights.map (largest⁻¹ * ·)).get p := by
    rw [PerPlaylist.get_map, div_eq_inv_mul]
  simp only [scaled]
  exact plain_mul (inv_ne_zero h)

section Weights

variable (hweights : ∀ p, 0 ≤ weights.get p) (hpos : ∃ p ∈ playlists, 0 < weights.get p)
include hweights

/-- A weight scaled by the largest one is from zero to one. -/
theorem scaled_mem_unit {p : Playlist} (h : p ∈ playlists) :
    0 ≤ weights.get p / top weights playlists ∧ weights.get p / top weights playlists ≤ 1 :=
  ⟨div_nonneg (hweights p) top_nonneg, div_le_one_of_le₀ (le_top h) top_nonneg⟩

include hpos

/-- If some weight is above zero, so is the sum of the weights. -/
theorem sum_weights_pos : 0 < (playlists.map weights.get).sum := by
  obtain ⟨p, hp, hpos⟩ := hpos
  have nonneg : ∀ w ∈ playlists.map weights.get, 0 ≤ w := by
    intro w hw
    obtain ⟨q, -, rfl⟩ := List.mem_map.1 hw
    exact hweights q
  exact hpos.trans_le (List.single_le_sum nonneg _ (List.mem_map_of_mem hp))

/-- The scaled weights add up to one at least, as the largest of them is one, and to as much as
there are playlists at most. -/
theorem total_mem : 1 ≤ (playlists.map fun p => weights.get p / top weights playlists).sum ∧
    (playlists.map fun p => weights.get p / top weights playlists).sum ≤ playlists.length := by
  have unit : ∀ w ∈ playlists.map fun p => weights.get p / top weights playlists,
      0 ≤ w ∧ w ≤ 1 := by
    intro w hw
    obtain ⟨q, hq, rfl⟩ := List.mem_map.1 hw
    exact scaled_mem_unit hweights hq
  constructor
  · have htop := top_pos_iff.2 hpos
    obtain ⟨p, hp, hlargest⟩ := exists_eq_top htop
    have one : weights.get p / top weights playlists = 1 := by rw [hlargest, div_self htop.ne']
    rw [← one]
    exact List.single_le_sum (fun w hw => (unit w hw).1) _ (List.mem_map_of_mem hp)
  · have bound := List.sum_le_card_nsmul _ 1 fun w hw => (unit w hw).2
    rwa [List.length_map, nsmul_one] at bound

/-- Of the values that count, one is not above the mean. -/
theorem exists_le_plain :
    ∃ p ∈ playlists, 0 < weights.get p ∧ values.get p ≤ plain weights values playlists := by
  by_contra h
  push Not at h
  set mean := plain weights values playlists with hmean
  have total := sum_weights_pos hweights hpos
  -- Were all of them above it, so would their sum be above itself.
  have above : (playlists.map fun p => weights.get p * mean).sum <
      (playlists.map fun p => weights.get p * values.get p).sum := by
    refine List.sum_lt_sum _ _ (fun p hp => ?_) ?_
    · rcases (hweights p).eq_or_lt with hzero | hp'
      · rw [← hzero, zero_mul, zero_mul]
      · exact mul_le_mul_of_nonneg_left (h p hp hp').le (hweights p)
    · obtain ⟨p, hp, hp'⟩ := hpos
      exact ⟨p, hp, mul_lt_mul_of_pos_left (h p hp hp') hp'⟩
  rw [List.sum_map_mul_right, hmean, plain, mul_div_cancel₀ _ total.ne'] at above
  exact lt_irrefl _ above

/-- Of the values that count, one is not below the mean. -/
theorem exists_plain_le :
    ∃ p ∈ playlists, 0 < weights.get p ∧ plain weights values playlists ≤ values.get p := by
  have mirrored : plain weights (values.map (-·)) playlists = -plain weights values playlists := by
    rw [plain, plain, ← neg_div, List.sum_neg, List.map_map]
    simp only [PerPlaylist.get_map, mul_neg, Function.comp_def]
  obtain ⟨p, hp, hp', hle⟩ := @exists_le_plain weights (values.map (-·)) playlists hweights hpos
  rw [mirrored, PerPlaylist.get_map] at hle
  exact ⟨p, hp, hp', neg_le_neg_iff.1 hle⟩

end Weights

/-- The mean does not go down where no value does. -/
theorem plain_mono {values' : PerPlaylist ℚ} (hweights : ∀ p, 0 ≤ weights.get p)
    (h : ∀ p, values.get p ≤ values'.get p) :
    plain weights values playlists ≤ plain weights values' playlists := by
  have nonneg : 0 ≤ (playlists.map weights.get).sum := by
    refine List.sum_nonneg fun w hw => ?_
    obtain ⟨q, -, rfl⟩ := List.mem_map.1 hw
    exact hweights q
  refine div_le_div_of_nonneg_right (List.sum_le_sum fun p _ => ?_) nonneg
  exact mul_le_mul_of_nonneg_left (h p) (hweights p)

/-! ### Means on fractions -/

/-- Weights that all are weights are fractions, none of them below zero. -/
theorem exists_fractions {weights : PerPlaylist Exact}
    (h : ∀ p, Quantity.isWeight (weights.get p) = true) :
    ∃ read : PerPlaylist ℚ, weights = read.map Exact.fraction ∧ ∀ p, 0 ≤ read.get p := by
  choose read same nonneg using fun p => Exact.isWeight_iff.1 (h p)
  refine ⟨⟨read .ones, read .twos, read .threes, read .fours⟩, ?_, fun p => ?_⟩
  · rw [PerPlaylist.map, ← same, ← same, ← same, ← same]
    rfl
  · cases p <;> exact nonneg _

/-- Fractions that are not negative are weights, all of them. -/
theorem firstBad?_fraction (hweights : ∀ p, 0 ≤ weights.get p) :
    firstBad? (weights.map Exact.fraction) = none := by
  rw [firstBad?_eq_none_iff]
  intro p
  rw [PerPlaylist.get_map]
  exact Exact.isWeight_iff.2 ⟨_, rfl, hweights p⟩

/-- For there to be no mean only the weights of the playlists that count matter, not the values. -/
theorem weighted_fraction_eq_noneQualifies_iff {values : PerPlaylist Exact}
    (hweights : ∀ p, 0 ≤ weights.get p) :
    weighted (weights.map Exact.fraction) minGames games values = .error .noneQualifies ↔
      ¬∃ p, minGames.get p ≤ games.get p ∧ 0 < weights.get p := by
  rw [weighted_eq_noneQualifies_iff, and_iff_right (firstBad?_fraction hweights)]
  rw [PerPlaylist.get_map_eq_comp, ← List.map_map, Exact.zero_eq, foldl_larger_fraction,
    Exact.less_fraction, decide_eq_false_iff_not]
  simp only [← mem_counted]
  exact not_congr top_pos_iff

/-- **On fractions the mean is the plain one**, if a playlist that counts has a weight above zero,
and there is none otherwise. -/
theorem weighted_fraction (hweights : ∀ p, 0 ≤ weights.get p) :
    weighted (weights.map Exact.fraction) minGames games (values.map Exact.fraction) =
      if ∃ p ∈ counted minGames games, 0 < weights.get p then
        .ok (Exact.fraction (plain weights values (counted minGames games)))
      else .error .noneQualifies := by
  rw [weighted_eq, firstBad?_fraction hweights]
  dsimp only
  rw [qualifying_fractions, largest_fractions, Exact.zero_eq, Exact.less_fraction]
  by_cases hpos : ∃ p ∈ counted minGames games, 0 < weights.get p
  · have htop := top_pos_iff.2 hpos
    have total := (total_mem hweights hpos).1
    rw [if_pos (decide_eq_true htop), if_pos hpos, sums_fractions htop.ne',
      Exact.fraction_div _ (zero_lt_one.trans_le total).ne', plain_scaled htop.ne']
  · rw [if_neg hpos, if_neg (by simpa using fun h => hpos (top_pos_iff.1 h))]

end Fractions
end Mean
end GuildRating
