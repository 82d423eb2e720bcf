/-
# What the check of a configuration foretells

The check looks at the settings before a configuration is stored; the rating looks at them again for
every player, in loops and tests of its own.  Both come to the same: a configuration that is
refused fails for every player, with an error that follows from that of the check alone
(`Config.ratingError`), and under one that is accepted a player is without a rating only for reasons
that lie with the player (`LeftToPlayer`).  `check_foretells_rating` says both of every
configuration.
-/

import GuildRating.Proofs.Cache.Lookups
import GuildRating.Proofs.Refusal

namespace GuildRating

/-- What each player gets to hear of an error of the check. -/
def Config.ratingError (config : Config) : Config.Error → Rating.Error
  | .missingFormula => .missingFormula
  | .invalidFormula reason => .formula reason
  | .invalidWeight (.playlist p) weight => .invalidWeights (.playlist p weight)
  | .invalidWeight .ascendancyCurrent _ => .invalidWeights (.ascendancy config.blend)
  | .invalidWeight .ascendancyPeak _ => .invalidWeights (.ascendancy config.blend)
  | .noWeights => .noQualifyingPlaylists
  | .zeroAscendancyWeights => .invalidWeights .zeroAscendancy

/-- The errors that sound settings of an algorithm leave possible: too few games, or numbers that
come to no finite rating. -/
inductive Rating.LeftToPlayer : Algorithm → Rating.Error → Prop where
  | noQualifyingPlaylists : LeftToPlayer .weightedAverage .noQualifyingPlaylists
  | noData : LeftToPlayer .peakMmr .noData
  | notFinite {algorithm : Algorithm} : algorithm ≠ .custom → LeftToPlayer algorithm .notFinite
  | arithmetic {e : Formula.EvalError} : e.IsArithmetic →
      LeftToPlayer .custom (.formula (.eval e))

namespace Config

open Rating (LeftToPlayer finite weightedAverage peakRating ascendancy rate)

variable {config : Config} {player : Player}

/-- That a rating is not finite lies with the player. -/
theorem finite_stops {algorithm : Algorithm} (h : algorithm ≠ .custom) (rating : Double) :
    StopsWith (LeftToPlayer algorithm) (finite rating) := by
  unfold finite
  split
  · exact .ok _
  · exact .error (.notFinite h)

/-! ### Weighted averages -/

section WeightedAverage

variable {weights : PerPlaylist Double} {minGames : PerPlaylist UInt32} {p : Playlist}

/-- Checking weights one after the other finds the first one that is bad. -/
theorem forM_checkWeight (weights : PerPlaylist Double) (playlists : List Playlist) :
    (playlists.forM fun p => checkWeight (.playlist p) (weights.get p)) =
      match playlists.find? fun p => !Quantity.isWeight (weights.get p) with
      | none => .ok ()
      | some p => .error (.invalidWeight (.playlist p) (weights.get p)) := by
  induction playlists with
  | nil => rfl
  | cons p playlists ih =>
    have step : ((p :: playlists).forM fun p => checkWeight (.playlist p) (weights.get p)) =
        (checkWeight (.playlist p) (weights.get p) >>= fun _ =>
          playlists.forM fun p => checkWeight (.playlist p) (weights.get p)) := rfl
    rw [step, ih, List.find?_cons, checkWeight]
    cases Quantity.isWeight (weights.get p) with
    | true => rfl
    | false => rfl

/-- The check of a weighted average looks for the first bad weight, and else for one that is not
zero. -/
theorem check_weightedAverage (h : config.algorithm = .weightedAverage) :
    config.check =
      match Mean.firstBad? config.allWeights with
      | some p => .error (.invalidWeight (.playlist p) (config.allWeights.get p))
      | none =>
        if Playlist.all.all fun p => (config.allWeights.get p).isZero then .error .noWeights
        else .ok () := by
  simp only [check, h, forM_checkWeight, Mean.firstBad?]
  cases Playlist.all.find? fun p => !Quantity.isWeight (config.allWeights.get p) with
  | some p => rfl
  | none => rfl

/-- Under this algorithm a rating is the weighted average. -/
theorem rate_weightedAverage (h : config.algorithm = .weightedAverage) (player : Player) :
    rate config player = weightedAverage config.allWeights config.allMinGames player := by
  have builtIn : config.algorithm ≠ .custom := by rw [h]; decide
  rw [Rating.rate_builtIn builtIn, Rating.builtIn, h]

/-- A zero, whatever its sign, is not above zero. -/
theorem less_zero_of_isZero {x : Double} (h : x.isZero = true) : Quantity.less 0 x = false := by
  show Double.less 0 x = false
  rw [Double.less, Double.position_zero, Double.isZero_iff.1 h]
  rfl

/-- Of zeros none is the largest but a zero. -/
theorem isZero_foldl_larger {xs : List Double} {largest : Double} (h : largest.isZero = true)
    (hxs : ∀ x ∈ xs, x.isZero = true) : (xs.foldl Mean.larger largest).isZero = true := by
  induction xs generalizing largest with
  | nil => exact h
  | cons x xs ih =>
    obtain ⟨hx, hxs⟩ := List.forall_mem_cons.1 hxs
    rw [List.foldl_cons]
    refine ih ?_ hxs
    rw [Mean.larger]
    split
    · exact hx
    · exact h

/-- A bad weight is refused for every player. -/
theorem weightedAverage_of_bad (h : Mean.firstBad? weights = some p) :
    weightedAverage weights minGames player =
      .error (.invalidWeights (.playlist p (weights.get p))) := by
  rw [weightedAverage, Mean.weighted, h]

/-- Weights that are all zero leave nothing to divide by, whichever playlists qualify. -/
theorem weightedAverage_of_zero (h : Mean.firstBad? weights = none)
    (hzero : (Playlist.all.all fun p => (weights.get p).isZero) = true) :
    weightedAverage weights minGames player = .error .noQualifyingPlaylists := by
  rw [weightedAverage, Mean.weighted, h]
  dsimp only
  have zeros : ∀ x ∈ (Mean.qualifying weights minGames player.games
      (player.standings.map Standing.current)).map (·.1), x.isZero = true := by
    intro x hx
    rw [Mean.qualifying, List.map_map, List.mem_map] at hx
    obtain ⟨p, -, rfl⟩ := hx
    exact List.all_eq_true.1 hzero p (Playlist.mem_all p)
  have start : (0 : Double).isZero = true := by decide +kernel
  rw [less_zero_of_isZero (isZero_foldl_larger start zeros), if_neg Bool.false_ne_true]

/-- With sound weights an average fails for reasons that lie with the player. -/
theorem weightedAverage_stops (h : Mean.firstBad? weights = none) :
    StopsWith (LeftToPlayer .weightedAverage) (weightedAverage weights minGames player) := by
  rw [weightedAverage, Mean.weighted, h]
  dsimp only
  by_cases hlargest : Quantity.less 0 ((Mean.qualifying weights minGames player.games
      (player.standings.map Standing.current)).map (·.1) |>.foldl Mean.larger 0) = true
  · rw [if_pos hlargest]
    exact finite_stops (by decide) _
  · rw [if_neg hlargest]
    exact .error .noQualifyingPlaylists

end WeightedAverage

/-! ### Peaks -/

/-- A peak rating fails for reasons that lie with the player. -/
theorem peakRating_stops (player : Player) :
    StopsWith (LeftToPlayer .peakMmr) (peakRating player) := by
  unfold peakRating
  dsimp only
  split
  · exact .error .noData
  · exact finite_stops (by decide) _

/-! ### Blends of a current and a peak rating -/

section Ascendancy

variable {weights : AscendancyWeights}

/-- The check of a blend looks at the weights one after the other and then at their sum. -/
theorem check_ascendancy (h : config.algorithm = .ascendancy) :
    config.check =
      if Quantity.isWeight config.blend.current = false then
        .error (.invalidWeight .ascendancyCurrent config.blend.current)
      else if Quantity.isWeight config.blend.peak = false then
        .error (.invalidWeight .ascendancyPeak config.blend.peak)
      else if (config.blend.current + config.blend.peak).isZero = true then
        .error .zeroAscendancyWeights
      else .ok () := by
  simp only [check, h, checkWeight]
  cases hcurrent : Quantity.isWeight config.blend.current with
  | false => rfl
  | true =>
    cases hpeak : Quantity.isWeight config.blend.peak with
    | false => rfl
    | true => rfl

/-- Under this algorithm a rating is the blend. -/
theorem rate_ascendancy (h : config.algorithm = .ascendancy) (player : Player) :
    rate config player = ascendancy config.blend player := by
  have builtIn : config.algorithm ≠ .custom := by rw [h]; decide
  rw [Rating.rate_builtIn builtIn, Rating.builtIn, h]

/-- A bad weight in a blend is refused for every player. -/
theorem ascendancy_of_bad
    (h : Quantity.isWeight weights.current = false ∨ Quantity.isWeight weights.peak = false) :
    ascendancy weights player = .error (.invalidWeights (.ascendancy weights)) := by
  have bad : (!Quantity.isWeight weights.current || !Quantity.isWeight weights.peak) = true := by
    rcases h with h | h <;> simp [h]
  rw [ascendancy, if_pos bad]

/-- With sound weights a blend is refused only if they add up to zero. -/
theorem ascendancy_of_weights (hcurrent : Quantity.isWeight weights.current = true)
    (hpeak : Quantity.isWeight weights.peak = true) :
    ascendancy weights player =
      if (weights.current + weights.peak).isZero = true then
        .error (.invalidWeights .zeroAscendancy)
      else
        finite (weights.current * (Rating.leading player).current +
          weights.peak * (Rating.leading player).peak) := by
  rw [ascendancy, hcurrent, hpeak]
  rfl

end Ascendancy

/-! ### Formulas -/

section Formulas

/-- Where there is no formula, the check says so. -/
theorem check_missing (h : config.algorithm = .custom) (hf : config.formula? = none) :
    config.check = .error .missingFormula := by
  rw [check, h, hf]

variable {source : String}

/-- The check of a formula is that it compiles. -/
theorem check_custom (h : config.algorithm = .custom) (hf : config.formula? = some source) :
    config.check =
      match Formula.compile .standard source with
      | .ok _ => .ok ()
      | .error reason => .error (.invalidFormula reason) := by
  simp only [check, h, hf, Formula.judge]
  cases Formula.compile .standard source with
  | ok formula => rfl
  | error reason => rfl

/-- A formula that is set is not blank. -/
theorem allBlank_of_formula? (h : config.formula? = some source) :
    Text.allBlank source = false := by
  rw [Config.formula?, Option.filter_eq_some_iff] at h
  simpa using h.2

/-- A formula that compiles is evaluated for the player. -/
theorem rate_compiled {formula : Formula} (h : config.algorithm = .custom)
    (hf : config.formula? = some source)
    (hcompile : Formula.compile .standard source = .ok formula) (player : Player) :
    rate config player = (formula.evaluate player).mapError Rating.Error.formula := by
  simp only [rate, h, hf, hcompile]
  rfl

/-- A formula that does not compile fails for every player as it fails to compile. -/
theorem rate_refused {reason : Formula.Error} (h : config.algorithm = .custom)
    (hf : config.formula? = some source)
    (hcompile : Formula.compile .standard source = .error reason) (player : Player) :
    rate config player = .error (.formula reason) := by
  simp only [rate, h, hf, hcompile]
  rfl

end Formulas

/-- The check foretells how players are rated. -/
structure Foretells (config : Config) : Prop where
  accepted : config.check = .ok () → ∀ player,
    StopsWith (LeftToPlayer config.algorithm) (rate config player)
  refused : ∀ e, config.check = .error e → ∀ player,
    rate config player = .error (config.ratingError e)
  reason : ∀ reason, config.check = .error (.invalidFormula reason) → reason.Refusal

namespace Foretells

/-- A check that accepts foretells the ratings if these fail only for reasons that lie with the
player. -/
theorem of_ok (hcheck : config.check = .ok ())
    (h : ∀ player, StopsWith (LeftToPlayer config.algorithm) (rate config player)) :
    config.Foretells where
  accepted _ := h
  refused e he := by
    rw [hcheck] at he
    cases he
  reason reason he := by
    rw [hcheck] at he
    cases he

/-- A check that refuses foretells the ratings if all players get the error that goes with it. -/
theorem of_error {e : Error} (hcheck : config.check = .error e)
    (h : ∀ player, rate config player = .error (config.ratingError e))
    (hreason : ∀ reason, e = .invalidFormula reason → reason.Refusal) : config.Foretells where
  accepted hok := by
    rw [hcheck] at hok
    cases hok
  refused e' he := by
    obtain rfl := Except.error.inj (hcheck.symm.trans he)
    exact h
  reason reason he := hreason reason (Except.error.inj (hcheck.symm.trans he))

end Foretells

/-- The check foretells weighted averages. -/
theorem foretells_weightedAverage (h : config.algorithm = .weightedAverage) :
    config.Foretells := by
  have hcheck := check_weightedAverage h
  have hrate := rate_weightedAverage h
  cases hbad : Mean.firstBad? config.allWeights with
  | some p =>
    rw [hbad] at hcheck
    refine Foretells.of_error hcheck (fun player => ?_) (fun _ => nofun)
    rw [hrate, weightedAverage_of_bad hbad]
    rfl
  | none =>
    rw [hbad] at hcheck
    dsimp only at hcheck
    by_cases hzero : (Playlist.all.all fun p => (config.allWeights.get p).isZero) = true
    · rw [if_pos hzero] at hcheck
      refine Foretells.of_error hcheck (fun player => ?_) (fun _ => nofun)
      rw [hrate, weightedAverage_of_zero hbad hzero]
      rfl
    · rw [if_neg hzero] at hcheck
      refine Foretells.of_ok hcheck fun player => ?_
      rw [hrate, h]
      exact weightedAverage_stops hbad

/-- The check, which has nothing to look at, foretells peak ratings. -/
theorem foretells_peakMmr (h : config.algorithm = .peakMmr) : config.Foretells := by
  have hcheck : config.check = .ok () := by rw [check, h]
  refine Foretells.of_ok hcheck fun player => ?_
  have builtIn : config.algorithm ≠ .custom := by rw [h]; decide
  rw [Rating.rate_builtIn builtIn, Rating.builtIn, h]
  exact peakRating_stops player

/-- The check foretells blends. -/
theorem foretells_ascendancy (h : config.algorithm = .ascendancy) : config.Foretells := by
  have hcheck := check_ascendancy h
  have hrate := rate_ascendancy h
  cases hcurrent : Quantity.isWeight config.blend.current with
  | false =>
    rw [if_pos hcurrent] at hcheck
    refine Foretells.of_error hcheck (fun player => ?_) (fun _ => nofun)
    rw [hrate, ascendancy_of_bad (.inl hcurrent)]
    rfl
  | true =>
    rw [hcurrent, if_neg (by decide)] at hcheck
    cases hpeak : Quantity.isWeight config.blend.peak with
    | false =>
      rw [if_pos hpeak] at hcheck
      refine Foretells.of_error hcheck (fun player => ?_) (fun _ => nofun)
      rw [hrate, ascendancy_of_bad (.inr hpeak)]
      rfl
    | true =>
      rw [hpeak, if_neg (by decide)] at hcheck
      by_cases hzero : (config.blend.current + config.blend.peak).isZero = true
      · rw [if_pos hzero] at hcheck
        refine Foretells.of_error hcheck (fun player => ?_) (fun _ => nofun)
        rw [hrate, ascendancy_of_weights hcurrent hpeak, if_pos hzero]
        rfl
      · rw [if_neg hzero] at hcheck
        refine Foretells.of_ok hcheck fun player => ?_
        rw [hrate, h, ascendancy_of_weights hcurrent hpeak, if_neg hzero]
        exact finite_stops (by decide) _

/-- The check foretells ratings by a formula. -/
theorem foretells_custom (h : config.algorithm = .custom) : config.Foretells := by
  cases hf : config.formula? with
  | none =>
    refine Foretells.of_error (check_missing h hf) (fun player => ?_) (fun _ => nofun)
    exact Rating.rate_missing h hf
  | some source =>
    have hcheck := check_custom h hf
    cases hcompile : Formula.compile .standard source with
    | error reason =>
      rw [hcompile] at hcheck
      refine Foretells.of_error hcheck (fun player => rate_refused h hf hcompile player) ?_
      intro reason' same
      cases same
      exact Formula.compile_refuses .standard (allBlank_of_formula? hf) reason hcompile
    | ok formula =>
      rw [hcompile] at hcheck
      refine Foretells.of_ok hcheck fun player => ?_
      rw [rate_compiled h hf hcompile, h]
      refine (Formula.evaluate_of_compile hcompile player).mapError ?_
      rintro e ⟨e', he', rfl⟩
      exact .arithmetic he'

/-- **The check foretells the rating.**  Of every configuration, whatever its weights and its
formula: if the check accepts it, a player has a rating or is without one for a reason of the
player's own; if the check refuses it, every player is refused with the error that the one of the
check stands for, and a formula is then refused for its tokens, its grammar or its tree, but never
for being empty. -/
theorem check_foretells_rating (config : Config) :
    (config.check = .ok () → ∀ player,
      (∃ rating, rate config player = .ok rating) ∨
        ∃ e, LeftToPlayer config.algorithm e ∧ rate config player = .error e) ∧
    (∀ e, config.check = .error e →
      (∀ player, rate config player = .error (config.ratingError e)) ∧
        ∀ reason, e = .invalidFormula reason → reason.Refusal) := by
  have foretold : config.Foretells := by
    cases h : config.algorithm with
    | weightedAverage => exact foretells_weightedAverage h
    | peakMmr => exact foretells_peakMmr h
    | custom => exact foretells_custom h
    | ascendancy => exact foretells_ascendancy h
  constructor
  · intro hok player
    cases hrate : rate config player with
    | ok rating => exact .inl ⟨rating, rfl⟩
    | error e => exact .inr ⟨e, foretold.accepted hok player e hrate, rfl⟩
  · intro e he
    refine ⟨foretold.refused e he, ?_⟩
    rintro reason rfl
    exact foretold.reason reason he

/-- A guild that weighs ones by one, and twos by something that is no number, but only for players
with ten games in them. -/
def nanWeighted : Config :=
  byAverage ⟨some 1, some .nan, none, none⟩ (some ⟨none, some 10, none, none⟩)

/-- A guild with half a sum for its formula. -/
def halfSum : Config := byFormula "ones +"

/-- Standard blends are accepted and may only fail to be finite; a weight that is no number is
refused for every player, whether or not its playlist qualifies; and half a sum is refused for
every player as the check refuses it. -/
theorem check_foretells_rating_nanWeighted :
    (∀ player, (∃ rating, rate (byAscendancy none) player = .ok rating) ∨
      ∃ e, LeftToPlayer .ascendancy e ∧ rate (byAscendancy none) player = .error e) ∧
    nanWeighted.check = .error (.invalidWeight (.playlist .twos) .nan) ∧
    (∀ player, rate nanWeighted player = .error (.invalidWeights (.playlist .twos .nan))) ∧
    halfSum.check = .error (.invalidFormula (.grammar (.unexpected 6 .operand none))) ∧
    (∀ player, rate halfSum player =
      .error (.formula (.grammar (.unexpected 6 .operand none)))) := by
  have accepted : (byAscendancy none).check = .ok () := by decide +kernel
  have nanWeight : nanWeighted.check = .error (.invalidWeight (.playlist .twos) .nan) := by
    decide +kernel
  have refused : halfSum.check =
      .error (.invalidFormula (.grammar (.unexpected 6 .operand none))) := by cbv
  exact ⟨(check_foretells_rating (byAscendancy none)).1 accepted, nanWeight,
    ((check_foretells_rating nanWeighted).2 _ nanWeight).1, refused,
    ((check_foretells_rating halfSum).2 _ refused).1⟩

end Config
end GuildRating
