/-
# The weighted average is the plain mean

What a weighted average does on doubles is told here by what it does on the fractions they denote.
It fails on doubles exactly where it fails on fractions (`failsAsRead`).  What it returns is the
mean on doubles, if that is finite, and where no single operation rounds it denotes the mean on
fractions (`returnsMean`).  On fractions, all that can go wrong is a weight that is no weight,
wherever it stands, and else that no playlist with enough games has a weight above zero; otherwise
the run goes through without a division by zero (`undisturbed`) and the outcome is the sum of the
weighted ratings by the sum of the weights (`isPlainMean`).  The outcome knows the weights by their
proportion only (`weighted_mul`) and goes down with no rating (`weighted_mono`).
-/

import GuildRating.Proofs.Config.Checked
import GuildRating.Proofs.Evaluation.Finite
import GuildRating.Proofs.Rating.Mean

namespace GuildRating
namespace Mean

variable {minGames games : PerPlaylist UInt32}

/-! ### A run on fractions -/

/-- Nothing disturbs the mean of these weights and values: the largest weight, by which all of them
are divided, is above zero, the weights that it scales are from zero to one, and what they add up
to, by which the sum is divided, is one at least and four at most. -/
structure Undisturbed (pairs : List (Exact × Exact)) : Prop where
  divides : ofPairs (largest pairs) pairs =
    (sums (largest pairs) pairs).1 / (sums (largest pairs) pairs).2
  largest_pos : ∃ q, largest pairs = .fraction q ∧ 0 < q
  scaled_mem : ∀ pair ∈ pairs, ∃ q, pair.1 / largest pairs = .fraction q ∧ 0 ≤ q ∧ q ≤ 1
  total_mem : ∃ q, (sums (largest pairs) pairs).2 = .fraction q ∧ 1 ≤ q ∧ q ≤ 4

/-- The mean is the plain one of the playlists that count, and lies between values of playlists
that count and have a weight above zero. -/
structure IsPlainMean (weights values : PerPlaylist ℚ) (minGames games : PerPlaylist UInt32)
    (mean : ℚ) : Prop where
  eq_plain : mean = ((counted minGames games).map fun p => weights.get p * values.get p).sum /
    ((counted minGames games).map weights.get).sum
  exists_le : ∃ p, minGames.get p ≤ games.get p ∧ 0 < weights.get p ∧ values.get p ≤ mean
  le_exists : ∃ p, minGames.get p ≤ games.get p ∧ 0 < weights.get p ∧ mean ≤ values.get p

section Fractions

variable {weights values : PerPlaylist ℚ} (hweights : ∀ p, 0 ≤ weights.get p)
  (hpos : ∃ p, minGames.get p ≤ games.get p ∧ 0 < weights.get p)
include hweights hpos

/-- **Nothing disturbs a mean** once a playlist that counts has a weight above zero. -/
theorem undisturbed : Undisturbed
    (qualifying (weights.map Exact.fraction) minGames games (values.map Exact.fraction)) := by
  simp only [← mem_counted] at hpos
  have htop := top_pos_iff.2 hpos
  rw [qualifying_fractions]
  constructor
  · rfl
  · exact ⟨_, largest_fractions, htop⟩
  · intro pair hpair
    obtain ⟨p, hp, rfl⟩ := List.mem_map.1 hpair
    rw [largest_fractions, Exact.fraction_div _ htop.ne']
    exact ⟨_, rfl, scaled_mem_unit hweights hp⟩
  · obtain ⟨hone, hlength⟩ := total_mem hweights hpos
    rw [largest_fractions, sums_fractions htop.ne']
    exact ⟨_, rfl, hone, hlength.trans (by exact_mod_cast length_counted_le)⟩

/-- Nothing else can go wrong: if the weights are not negative and some playlist that counts has a
weight above zero, there is a mean, and it is the plain one. -/
theorem isPlainMean : ∃ mean,
    weighted (weights.map Exact.fraction) minGames games (values.map Exact.fraction) =
      .ok (.fraction mean) ∧ IsPlainMean weights values minGames games mean := by
  simp only [← mem_counted] at hpos
  refine ⟨plain weights values (counted minGames games), ?_, rfl, ?_, ?_⟩
  · rw [weighted_fraction hweights, if_pos hpos]
  · obtain ⟨p, hp, between⟩ := exists_le_plain hweights hpos
    exact ⟨p, mem_counted.1 hp, between⟩
  · obtain ⟨p, hp, between⟩ := exists_plain_le hweights hpos
    exact ⟨p, mem_counted.1 hp, between⟩

end Fractions

section Weights

variable {weights : PerPlaylist Exact} {values : PerPlaylist ℚ}

/-- **A mean knows the weights by their proportion only.** -/
theorem weighted_mul {factor : ℚ} (h : 0 < factor) :
    weighted (weights.map (.fraction factor * ·)) minGames games (values.map Exact.fraction) =
      weighted weights minGames games (values.map Exact.fraction) := by
  have first : firstBad? (weights.map (.fraction factor * ·)) = firstBad? weights := by
    rw [firstBad?, firstBad?]
    simp only [PerPlaylist.get_map, Exact.isWeight_mul h]
  cases hbad : firstBad? weights with
  | some p => rw [weighted_eq_badWeight_iff.2 (first.trans hbad), weighted_eq_badWeight_iff.2 hbad]
  | none =>
    obtain ⟨read, rfl, nonneg⟩ := exists_fractions (firstBad?_eq_none_iff.1 hbad)
    have scaled : (read.map Exact.fraction).map (.fraction factor * ·) =
        (read.map (factor * ·)).map Exact.fraction := rfl
    have nonneg' p : 0 ≤ (read.map (factor * ·)).get p := by
      rw [PerPlaylist.get_map]
      exact mul_nonneg h.le (nonneg p)
    rw [scaled, weighted_fraction nonneg', weighted_fraction nonneg, plain_mul h.ne']
    simp only [PerPlaylist.get_map, mul_pos_iff_of_pos_left h]

/-- **A mean does not go down where no value does.** -/
theorem weighted_mono {values' : PerPlaylist ℚ} {mean : Exact}
    (hvalues : ∀ p, values.get p ≤ values'.get p)
    (h : weighted weights minGames games (values.map Exact.fraction) = .ok mean) :
    ∃ m m', mean = .fraction m ∧
      weighted weights minGames games (values'.map Exact.fraction) = .ok (.fraction m') ∧
      m ≤ m' := by
  obtain ⟨read, rfl, nonneg⟩ := exists_fractions (isWeight_of_weighted_eq_ok h)
  rw [weighted_fraction nonneg] at h ⊢
  split at h
  · next hpos =>
    obtain rfl := Except.ok.inj h
    rw [if_pos hpos]
    exact ⟨_, _, rfl, rfl, plain_mono nonneg hvalues⟩
  · cases h

end Weights

/-! ### A run that does not round -/

section Unrounded

variable {divisor sum total : Double} {pairs : List (Double × Double)}

/-- Adding a value by its weight takes four operations on doubles, and none of them rounds: the
weight is divided by the largest one, then it is multiplied with the value, and both the product and
the weight are added to what there is. -/
structure AddsExactly (divisor sum total weight value : Double) : Prop where
  scaled_exact : (weight / divisor).exact = weight.exact / divisor.exact
  product_exact : (weight / divisor * value).exact = (weight / divisor).exact * value.exact
  sum_exact : (sum + weight / divisor * value).exact = sum.exact + (weight / divisor * value).exact
  total_exact : (total + weight / divisor).exact = total.exact + (weight / divisor).exact

/-- No operation rounds while these weights and values are added to what there is. -/
def AddUp (divisor sum total : Double) : List (Double × Double) → Prop
  | [] => True
  | (weight, value) :: pairs =>
    AddsExactly divisor sum total weight value ∧
      AddUp divisor (sum + weight / divisor * value) (total + weight / divisor) pairs

/-- No operation rounds in the mean of these weights and values, the last division included. -/
structure Unrounded (pairs : List (Double × Double)) : Prop where
  addUp : AddUp (largest pairs) 0 0 pairs
  quotient_exact : (ofPairs (largest pairs) pairs).exact =
    (sums (largest pairs) pairs).1.exact / (sums (largest pairs) pairs).2.exact

/-- A weight and a value as the fractions that they denote. -/
def exactPair (pair : Double × Double) : Exact × Exact := (pair.1.exact, pair.2.exact)

/-- **What is added up without rounding is the sum of the fractions.** -/
theorem sumsFrom_exact (h : AddUp divisor sum total pairs) :
    sumsFrom divisor.exact (sum.exact, total.exact) (pairs.map exactPair) =
      exactPair (sumsFrom divisor (sum, total) pairs) := by
  induction pairs generalizing sum total with
  | nil => rfl
  | cons pair pairs ih =>
    obtain ⟨step, rest⟩ := h
    rw [List.map_cons, exactPair, sumsFrom_cons, sumsFrom_cons, ← ih rest, step.sum_exact,
      step.product_exact, step.total_exact, step.scaled_exact]

/-- Where no operation rounds, the fractions add up to what the doubles add up to. -/
theorem sums_exact (h : AddUp divisor 0 0 pairs) :
    sums divisor.exact (pairs.map exactPair) = exactPair (sums divisor pairs) := by
  have added := sumsFrom_exact h
  rwa [Double.zero_exact] at added

/-- The same playlists qualify on doubles and on fractions. -/
theorem qualifying_exact (weights values : PerPlaylist Double) :
    qualifying (weights.map Double.exact) minGames games (values.map Double.exact) =
      (qualifying weights minGames games values).map exactPair := by
  rw [qualifying, qualifying, List.map_map]
  simp only [PerPlaylist.get_map]
  rfl

/-- The largest of the weights that count is the largest of their fractions. -/
theorem largest_exact {weights : PerPlaylist Double}
    (valid : ∀ p, Quantity.isWeight (weights.get p) = true)
    (minGames games : PerPlaylist UInt32) (values : PerPlaylist Double) :
    (largest (qualifying weights minGames games values)).isFinite = true ∧
      (largest (qualifying weights minGames games values)).exact =
        largest ((qualifying weights minGames games values).map exactPair) := by
  rw [largest, largest, List.map_map]
  have finite : ∀ x ∈ (qualifying weights minGames games values).map (·.1),
      x.isFinite = true := by
    simp only [qualifying, List.map_map, List.mem_map]
    rintro x ⟨p, -, rfl⟩
    exact isFinite_of_isWeight (valid p)
  have read := exact_foldl_larger _ (rfl : (0 : Double).isFinite = true) finite
  rw [Double.zero_exact, List.map_map] at read
  exact read

/-- **Where no operation rounds, the mean on doubles denotes the mean on fractions**, and where
there is none, both runs say so alike. -/
theorem weighted_exact {weights values : PerPlaylist Double}
    (h : Unrounded (qualifying weights minGames games values)) :
    weighted (weights.map Double.exact) minGames games (values.map Double.exact) =
      (weighted weights minGames games values).map Double.exact := by
  cases hmean : weighted weights minGames games values with
  | error e => exact weighted_exact_eq_error_iff.2 hmean
  | ok mean =>
    have valid := isWeight_of_weighted_eq_ok hmean
    have noneBad := firstBad?_eq_none_iff.2 valid
    obtain ⟨hfinite, hlargest⟩ := largest_exact valid minGames games values
    rw [weighted_eq, noneBad] at hmean
    rw [weighted_eq, firstBad?_exact, noneBad]
    dsimp only at hmean ⊢
    rw [qualifying_exact, ← hlargest, sums_exact h.addUp, ← Double.zero_exact,
      Double.less_exact rfl hfinite]
    split at hmean
    · next above =>
      obtain rfl := Except.ok.inj hmean
      refine (if_pos above).trans (congrArg Except.ok ?_)
      exact h.quotient_exact.symm
    · cases hmean

end Unrounded
end Mean

namespace Rating

variable {weights : PerPlaylist Double} {minGames : PerPlaylist UInt32} {player : Player}

/-! ### The average on doubles -/

/-- The average of a player's current ratings without rounding. -/
def exactAverage (weights : PerPlaylist Double) (minGames : PerPlaylist UInt32)
    (player : Player) : Except Mean.Error Exact :=
  Mean.weighted (weights.map Double.exact) minGames player.games
    ((player.standings.map Standing.current).map Double.exact)

/-- The average of a player's current ratings on doubles, before it is asked whether it is
finite. -/
def roundedAverage (weights : PerPlaylist Double) (minGames : PerPlaylist UInt32)
    (player : Player) : Except Mean.Error Double :=
  Mean.weighted weights minGames player.games (player.standings.map Standing.current)

/-- **Whether there is a mean does not depend on rounding.** -/
theorem exactAverage_eq_error_iff {e : Mean.Error} :
    exactAverage weights minGames player = .error e ↔
      roundedAverage weights minGames player = .error e :=
  Mean.weighted_exact_eq_error_iff

/-- A weighted average is the mean of the current ratings, if that is finite. -/
theorem weightedAverage_eq : weightedAverage weights minGames player =
    match roundedAverage weights minGames player with
    | .error (.badWeight p) => .error (.invalidWeights (.playlist p (weights.get p)))
    | .error .noneQualifies => .error .noQualifyingPlaylists
    | .ok mean => finite mean := rfl

/-- A weight is refused if it is refused as a fraction, and then with the double that it is. -/
theorem weightedAverage_eq_invalidWeights_iff {fault : WeightFault} :
    weightedAverage weights minGames player = .error (.invalidWeights fault) ↔
      ∃ p, fault = .playlist p (weights.get p) ∧
        exactAverage weights minGames player = .error (.badWeight p) := by
  simp only [exactAverage_eq_error_iff]
  rw [weightedAverage_eq]
  rcases roundedAverage weights minGames player with (p | _) | mean
  · simp [eq_comm]
  · simp
  · simp [finite_eq_error_iff]

/-- No playlist qualifies if none does on fractions. -/
theorem weightedAverage_eq_noQualifyingPlaylists_iff :
    weightedAverage weights minGames player = .error .noQualifyingPlaylists ↔
      exactAverage weights minGames player = .error .noneQualifies := by
  rw [exactAverage_eq_error_iff, weightedAverage_eq]
  rcases roundedAverage weights minGames player with (p | _) | mean
  · simp
  · simp
  · simp [finite_eq_error_iff]

/-- A weighted average fails on doubles as it fails on the fractions that they denote: over the
first weight that is negative or not finite, whether its playlist counts or not, and else over
there being no positive weight that counts. -/
structure FailsAsRead (weights : PerPlaylist Double) (minGames : PerPlaylist UInt32)
    (player : Player) : Prop where
  read_badWeight : ∀ fault,
    weightedAverage weights minGames player = .error (.invalidWeights fault) ↔
      ∃ p, fault = .playlist p (weights.get p) ∧
        exactAverage weights minGames player = .error (.badWeight p)
  read_noneQualifies : weightedAverage weights minGames player = .error .noQualifyingPlaylists ↔
    exactAverage weights minGames player = .error .noneQualifies
  invalid_iff :
    (∃ fault, weightedAverage weights minGames player = .error (.invalidWeights fault)) ↔
      ∃ p, (weights.get p).isFinite = false ∨ (weights.get p).less 0 = true
  noneQualifies_iff : (¬∃ p, (weights.get p).isFinite = false ∨ (weights.get p).less 0 = true) →
    (weightedAverage weights minGames player = .error .noQualifyingPlaylists ↔
      ¬∃ p, minGames.get p ≤ player.games.get p ∧ Double.less 0 (weights.get p) = true)

/-- What is no weight is not finite or below zero. -/
theorem isWeight_eq_false_iff {x : Double} :
    Quantity.isWeight x = false ↔ x.isFinite = false ∨ x.less 0 = true := by
  have unfolded : Quantity.isWeight x = (x.isFinite && !x.less 0) := rfl
  rw [unfolded, Bool.and_eq_false_iff, Bool.not_eq_false']

/-- **Rounding has no part in the failures of an average.** -/
theorem failsAsRead : FailsAsRead weights minGames player where
  read_badWeight _ := weightedAverage_eq_invalidWeights_iff
  read_noneQualifies := weightedAverage_eq_noQualifyingPlaylists_iff
  invalid_iff := by
    simp only [weightedAverage_eq_invalidWeights_iff, exactAverage_eq_error_iff]
    simp only [← isWeight_eq_false_iff]
    rw [← Mean.exists_badWeight_iff]
    constructor
    · rintro ⟨_, p, -, h⟩
      exact ⟨p, h⟩
    · rintro ⟨p, h⟩
      exact ⟨_, p, rfl, h⟩
  noneQualifies_iff hvalid := by
    simp only [← isWeight_eq_false_iff, not_exists, Bool.not_eq_false] at hvalid
    obtain ⟨read, same, nonneg⟩ := @Mean.exists_fractions (weights.map Double.exact)
      fun p => by rw [PerPlaylist.get_map, Double.isWeight_exact, hvalid]
    rw [weightedAverage_eq_noQualifyingPlaylists_iff, exactAverage, same,
      Mean.weighted_fraction_eq_noneQualifies_iff nonneg]
    refine not_congr (exists_congr fun p => and_congr_right fun _ => ?_)
    have denoted : (weights.get p).exact = .fraction (read.get p) := by
      rw [← PerPlaylist.get_map Double.exact, same, PerPlaylist.get_map]
    have less := @Double.less_exact 0 _ rfl (Mean.isFinite_of_isWeight (hvalid p))
    rw [← less, Double.zero_exact, denoted, Exact.zero_eq, Exact.less_fraction, decide_eq_true_eq]

/-- No operation rounds in the average of a player's current ratings. -/
def Unrounded (weights : PerPlaylist Double) (minGames : PerPlaylist UInt32)
    (player : Player) : Prop :=
  Mean.Unrounded (Mean.qualifying weights minGames player.games
    (player.standings.map Standing.current))

/-- **What an average returns is the mean on doubles**, and it returns it if that is finite. -/
theorem weightedAverage_eq_ok_iff {rating : Double} :
    weightedAverage weights minGames player = .ok rating ↔
      roundedAverage weights minGames player = .ok rating ∧ rating.isFinite = true := by
  rw [weightedAverage_eq]
  rcases roundedAverage weights minGames player with (p | _) | mean
  · simp
  · simp
  · rw [Except.ok.injEq]
    exact finite_eq_ok_iff

/-- The average is refused for not being finite if there is a mean that is not finite. -/
theorem weightedAverage_eq_notFinite_iff :
    weightedAverage weights minGames player = .error .notFinite ↔
      ∃ mean, roundedAverage weights minGames player = .ok mean ∧ mean.isFinite = false := by
  rw [weightedAverage_eq]
  rcases roundedAverage weights minGames player with (p | _) | mean
  · simp
  · simp
  · simp [finite_eq_error_iff]

/-- Where no operation rounds, what an average returns denotes the mean on fractions. -/
theorem exactAverage_eq_ok_iff (h : Unrounded weights minGames player) {mean : ℚ} :
    exactAverage weights minGames player = .ok (.fraction mean) ↔
      ∃ rating, weightedAverage weights minGames player = .ok rating ∧
        rating.exact = .fraction mean := by
  have read : exactAverage weights minGames player =
      (roundedAverage weights minGames player).map Double.exact := Mean.weighted_exact h
  rw [read]
  simp only [weightedAverage_eq_ok_iff]
  cases roundedAverage weights minGames player with
  | error e => simp [Except.map]
  | ok rounded =>
    rw [Except.map, Except.ok.injEq]
    constructor
    · intro denoted
      exact ⟨rounded, ⟨rfl, Double.isFinite_of_exact denoted⟩, denoted⟩
    · rintro ⟨rating, ⟨same, -⟩, denoted⟩
      obtain rfl := Except.ok.inj same
      exact denoted

/-- An average sees only the weights and ratings of the playlists that count, if all weights are
weights. -/
theorem weightedAverage_congr {weights' : PerPlaylist Double} {player' : Player}
    (valid : ∀ p, Quantity.isWeight (weights.get p) = true)
    (valid' : ∀ p, Quantity.isWeight (weights'.get p) = true)
    (games : player'.games = player.games)
    (counted : ∀ p, minGames.get p ≤ player.games.get p → weights'.get p = weights.get p ∧
      (player'.standings.get p).current = (player.standings.get p).current) :
    weightedAverage weights' minGames player' = weightedAverage weights minGames player := by
  have same :
      roundedAverage weights' minGames player' = roundedAverage weights minGames player := by
    rw [roundedAverage, roundedAverage, games]
    refine Mean.weighted_congr (fun p => (valid' p).trans (valid p).symm) fun p hp => ?_
    rw [PerPlaylist.get_map, PerPlaylist.get_map]
    exact counted p hp
  rw [weightedAverage_eq, weightedAverage_eq, same]
  cases hmean : roundedAverage weights minGames player with
  | ok mean => rfl
  | error e =>
    cases e with
    | noneQualifies => rfl
    | badWeight p =>
      obtain ⟨q, hq⟩ := Mean.exists_badWeight_iff.1 ⟨p, hmean⟩
      exact absurd (valid q) (by simp [hq])

/-- A weighted average returns the mean of the current ratings on doubles if that is finite; where
no operation rounds, it returns the mean on the fractions that the doubles denote; and the rating
and the weight of a playlist that does not count have no part in it. -/
structure ReturnsMean (weights : PerPlaylist Double) (minGames : PerPlaylist UInt32)
    (player : Player) : Prop where
  ok_iff : ∀ rating, weightedAverage weights minGames player = .ok rating ↔
    roundedAverage weights minGames player = .ok rating ∧ rating.isFinite = true
  notFinite_iff : weightedAverage weights minGames player = .error .notFinite ↔
    ∃ mean, roundedAverage weights minGames player = .ok mean ∧ mean.isFinite = false
  exact_iff : Unrounded weights minGames player → ∀ mean : ℚ,
    exactAverage weights minGames player = .ok (.fraction mean) ↔
      ∃ rating, weightedAverage weights minGames player = .ok rating ∧
        rating.exact = .fraction mean
  eq_of_counted : ∀ (weights' : PerPlaylist Double) (player' : Player),
    (∀ p, Quantity.isWeight (weights.get p) = true ∧ Quantity.isWeight (weights'.get p) = true) →
    player'.games = player.games →
    (∀ p, minGames.get p ≤ player.games.get p → weights'.get p = weights.get p ∧
      (player'.standings.get p).current = (player.standings.get p).current) →
    weightedAverage weights' minGames player' = weightedAverage weights minGames player

/-- **What a weighted average returns is the mean**, with and without rounding. -/
theorem returnsMean : ReturnsMean weights minGames player where
  ok_iff _ := weightedAverage_eq_ok_iff
  notFinite_iff := weightedAverage_eq_notFinite_iff
  exact_iff h _ := exactAverage_eq_ok_iff h
  eq_of_counted _ _ valid games counted :=
    weightedAverage_congr (fun p => (valid p).1) (fun p => (valid p).2) games counted

/-! ### What a weighted average is -/

/-- **A weighted average is the plain mean of the playlists that count.**  Doubles fail as the
fractions do that they denote; what is returned is the finite mean on doubles, and the mean on
fractions where nothing rounds; and this is the rating under the algorithm, with a cache and
without.  On fractions a weight that is negative or not finite is refused, whether its playlist
counts or not; failing that, there is no mean exactly if no playlist with enough games has a weight
above zero; and else nothing disturbs the run and its outcome is the plain mean, which lies between
ratings that count.  A mean stays what it is when all weights are multiplied by one factor above
zero and when the ratings or weights of playlists that do not count change, and never goes down when
ratings go up. -/
theorem weighted_average_is_plain_mean :
    (∀ weights minGames player, FailsAsRead weights minGames player) ∧
    (∀ weights minGames player, ReturnsMean weights minGames player) ∧
    (∀ config : Config, config.algorithm = .weightedAverage → ∀ player,
      rate config player = weightedAverage config.allWeights config.allMinGames player ∧
      ∀ cache, rateWith cache config player =
        (weightedAverage config.allWeights config.allMinGames player, cache)) ∧
    ∀ minGames games : PerPlaylist UInt32,
      (∀ weights values : PerPlaylist Exact,
        (∃ p, Mean.weighted weights minGames games values = .error (.badWeight p)) ↔
          ∃ p, weights.get p = .notFinite ∨ ∃ q < 0, weights.get p = .fraction q) ∧
      (∀ weights values : PerPlaylist ℚ, (∀ p, 0 ≤ weights.get p) →
        let run := Mean.weighted (weights.map Exact.fraction) minGames games
          (values.map Exact.fraction)
        (run = .error .noneQualifies ↔
          ¬∃ p, minGames.get p ≤ games.get p ∧ 0 < weights.get p) ∧
        ((∃ p, minGames.get p ≤ games.get p ∧ 0 < weights.get p) →
          Mean.Undisturbed (Mean.qualifying (weights.map Exact.fraction) minGames games
            (values.map Exact.fraction)) ∧
          ∃ mean, run = .ok (.fraction mean) ∧
            Mean.IsPlainMean weights values minGames games mean)) ∧
      (∀ (weights : PerPlaylist Exact) (values : PerPlaylist ℚ) (factor : ℚ), 0 < factor →
        Mean.weighted (weights.map (.fraction factor * ·)) minGames games
            (values.map Exact.fraction) =
          Mean.weighted weights minGames games (values.map Exact.fraction)) ∧
      (∀ weights weights' values values' : PerPlaylist Exact,
        (∀ p, Quantity.isWeight (weights.get p) = Quantity.isWeight (weights'.get p)) →
        (∀ p, minGames.get p ≤ games.get p →
          weights.get p = weights'.get p ∧ values.get p = values'.get p) →
        Mean.weighted weights minGames games values =
          Mean.weighted weights' minGames games values') ∧
      ∀ (weights : PerPlaylist Exact) (values values' : PerPlaylist ℚ) (mean : Exact),
        (∀ p, values.get p ≤ values'.get p) →
        Mean.weighted weights minGames games (values.map Exact.fraction) = .ok mean →
        ∃ m m', mean = .fraction m ∧
          Mean.weighted weights minGames games (values'.map Exact.fraction) = .ok (.fraction m') ∧
          m ≤ m' := by
  refine ⟨fun _ _ _ => failsAsRead, fun _ _ _ => returnsMean, ?_,
    fun minGames games => ⟨?_, ?_, ?_, ?_, ?_⟩⟩
  · intro config h player
    have builtIn : config.algorithm ≠ .custom := by rw [h]; decide
    have rated := config.rate_weightedAverage h player
    refine ⟨rated, fun cache => ?_⟩
    rw [rateWith_builtIn builtIn, ← rate_builtIn builtIn, rated]
  · intro weights values
    rw [Mean.exists_badWeight_iff]
    exact exists_congr fun p => Exact.isWeight_eq_false_iff
  · intro weights values nonneg
    refine ⟨Mean.weighted_fraction_eq_noneQualifies_iff nonneg, fun hpos => ?_⟩
    exact ⟨Mean.undisturbed nonneg hpos, Mean.isPlainMean nonneg hpos⟩
  · intro weights values factor h
    exact Mean.weighted_mul h
  · intro weights weights' values values' hweights hcounted
    exact Mean.weighted_congr hweights hcounted
  · intro weights values values' mean hvalues h
    exact Mean.weighted_mono hvalues h

/-- A player with too few games in fours. -/
def threePlayed : Player where
  standings := ⟨⟨.ofNat 1000, 0⟩, ⟨.ofNat 2000, 0⟩, ⟨.ofNat 3000, 0⟩, ⟨.ofNat 50, .nan⟩⟩
  games := ⟨1, 1, 1, 4⟩

/-- The weights 2, 1, 1 and 9, the last one for players with five games. -/
def twoOneOne : Config :=
  .byAverage ⟨some (.ofNat 2), some 1, some 1, some (.ofNat 9)⟩
    (some ⟨none, none, none, some 5⟩)

/-- With weights 3, 1, 0 and 9, the last one of a playlist with too few games, ratings of 1000 and
2000 have the mean 1250.  So they have with a third of all weights, and with another weight and no
finite rating in the last playlist; with 1100 for 1000 the mean is no less.  A last weight that is
not finite is refused, and without the first two weights there is no mean.  On doubles the weights
2, 1 and 1 give ratings of 1000, 2000 and 3000 the mean 1750 without rounding, which is the rating,
also with no number for the rating in the last playlist. -/
theorem weighted_average_is_plain_mean_threeToOne :
    let average (weights values : PerPlaylist Exact) :=
      Mean.weighted weights ⟨0, 0, 0, 5⟩ ⟨1, 1, 1, 4⟩ values
    let weights (first second : ℚ) : PerPlaylist Exact :=
      (PerPlaylist.mk first second 0 9).map Exact.fraction
    let values (first : ℚ) : PerPlaylist Exact :=
      (PerPlaylist.mk first 2000 (-7) 50).map Exact.fraction
    average (weights 3 1) (values 1000) = .ok (.fraction 1250) ∧
    average ((weights 3 1).map (.fraction (1 / 3) * ·)) (values 1000) = .ok (.fraction 1250) ∧
    average ((weights 3 1).set .fours (.fraction 7)) ((values 1000).set .fours .notFinite) =
      .ok (.fraction 1250) ∧
    (∃ m', average (weights 3 1) (values 1100) = .ok (.fraction m') ∧ 1250 ≤ m') ∧
    (∃ p, average ((weights 3 1).set .fours .notFinite) (values 1000) = .error (.badWeight p)) ∧
    average (weights 0 0) (values 1000) = .error .noneQualifies ∧
    (∃ fault, weightedAverage ⟨1, 1, 1, .nan⟩ (.const 0) .sample =
      .error (.invalidWeights fault)) ∧
    Unrounded twoOneOne.allWeights twoOneOne.allMinGames threePlayed ∧
    (∃ rating, weightedAverage twoOneOne.allWeights twoOneOne.allMinGames threePlayed =
      .ok rating ∧ rating.exact = .fraction 1750) ∧
    rate twoOneOne threePlayed = .ok (.ofNat 1750) ∧
    (rateWith (.empty .standard) twoOneOne
      ⟨threePlayed.standings.set .fours ⟨.nan, 0⟩, threePlayed.games⟩).1 = .ok (.ofNat 1750) := by
  intro average weights values
  obtain ⟨fails, returns, rated, spec⟩ := weighted_average_is_plain_mean
  obtain ⟨bad, fractions, scale, excluded, mono⟩ := spec ⟨0, 0, 0, 5⟩ ⟨1, 1, 1, 4⟩
  have counted : Mean.counted ⟨0, 0, 0, 5⟩ ⟨1, 1, 1, 4⟩ = [.ones, .twos, .threes] := by decide
  have mean : average (weights 3 1) (values 1000) = .ok (.fraction 1250) := by
    obtain ⟨-, mean, h, plain⟩ := (fractions ⟨3, 1, 0, 9⟩ ⟨1000, 2000, -7, 50⟩
      (by rintro (_ | _) <;> decide)).2 ⟨.ones, by decide, by decide⟩
    have value : mean = 1250 := by
      rw [plain.eq_plain, counted]
      norm_num [PerPlaylist.get]
    rw [← value]
    exact h
  have unrounded : Unrounded twoOneOne.allWeights twoOneOne.allMinGames threePlayed := by
    have pairs : Mean.qualifying twoOneOne.allWeights twoOneOne.allMinGames threePlayed.games
          (threePlayed.standings.map Standing.current) =
        [(.ofNat 2, .ofNat 1000), (1, .ofNat 2000), (1, .ofNat 3000)] := by decide +kernel
    rw [Unrounded, pairs]
    refine ⟨⟨⟨?_, ?_, ?_, ?_⟩, ⟨?_, ?_, ?_, ?_⟩, ⟨?_, ?_, ?_, ?_⟩, trivial⟩, ?_⟩
    all_goals decide +kernel
  have returned : weightedAverage twoOneOne.allWeights twoOneOne.allMinGames threePlayed =
      .ok (.ofNat 1750) :=
    ((returns _ _ _).ok_iff _).2 ⟨by decide +kernel, by decide +kernel⟩
  refine ⟨mean, ?_, ?_, ?_, ?_, ?_, ?_, unrounded, ?_, ?_, ?_⟩
  · exact (scale (weights 3 1) ⟨1000, 2000, -7, 50⟩ (1 / 3) (by norm_num)).trans mean
  · refine Eq.trans (excluded _ (weights 3 1) _ (values 1000) ?_ ?_) mean
    · rintro (_ | _) <;> rfl
    · rintro (_ | _) h
      · exact ⟨rfl, rfl⟩
      · exact ⟨rfl, rfl⟩
      · exact ⟨rfl, rfl⟩
      · exact absurd h (by decide)
  · obtain ⟨m, m', same, h, le⟩ := mono (weights 3 1) ⟨1000, 2000, -7, 50⟩
      ⟨1100, 2000, -7, 50⟩ _ (by rintro (_ | _) <;> decide) mean
    obtain rfl := Exact.fraction.inj same
    exact ⟨m', h, le⟩
  · exact (bad _ _).2 ⟨.fours, .inl rfl⟩
  · refine (fractions ⟨0, 0, 0, 9⟩ ⟨1000, 2000, -7, 50⟩ (by rintro (_ | _) <;> decide)).1.2 ?_
    rintro ⟨p, hgames, hpos⟩
    cases p with
    | fours => exact absurd hgames (by decide)
    | _ => exact lt_irrefl _ hpos
  · exact (fails ⟨1, 1, 1, .nan⟩ (.const 0) .sample).invalid_iff.2 ⟨.fours, .inl rfl⟩
  · exact ((returns twoOneOne.allWeights twoOneOne.allMinGames threePlayed).exact_iff
      unrounded 1750).1 (by decide +kernel)
  · rw [(rated twoOneOne rfl _).1, returned]
  · have valid : ∀ p ∈ Playlist.all, Quantity.isWeight (twoOneOne.allWeights.get p) = true := by
      decide +kernel
    have alike := (returns twoOneOne.allWeights twoOneOne.allMinGames threePlayed).eq_of_counted
      twoOneOne.allWeights ⟨threePlayed.standings.set .fours ⟨.nan, 0⟩, threePlayed.games⟩
      (fun p => ⟨valid p p.mem_all, valid p p.mem_all⟩) rfl
    rw [(rated twoOneOne rfl _).2]
    dsimp only
    rw [alike, returned]
    refine fun p h => ⟨rfl, ?_⟩
    have others : p ≠ .fours := by
      rintro rfl
      exact absurd h (by decide)
    rw [PerPlaylist.get_set_of_ne others]

end Rating
end GuildRating
