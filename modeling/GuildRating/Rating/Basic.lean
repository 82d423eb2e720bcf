/-
# Rating a player

`Rating.rate` gives a player one number by the algorithm of a configuration.  A rating is finite:
whatever is not is an error.  `Rating.rateWith` does the same with the formulas of a cache.
-/

import GuildRating.Config.Basic
import GuildRating.Formula.Cache
import GuildRating.Rating.Mean

namespace GuildRating
namespace Rating

/-- What is wrong with the weights of a configuration. -/
inductive WeightFault where
  | playlist (playlist : Playlist) (weight : Double)
  | ascendancy (weights : AscendancyWeights)
  | zeroAscendancy
deriving DecidableEq

/-- The message of a fault, with the weight as it was set. -/
def WeightFault.message : WeightFault → String
  | playlist p weight =>
    "weight for " ++ p.name ++ " must be a finite, non-negative number (got " ++ weight.text ++ ")"
  | ascendancy weights =>
    "ascendancy weights must be finite and non-negative (got current " ++ weights.current.text ++
      ", peak " ++ weights.peak.text ++ ")"
  | zeroAscendancy => "ascendancy weights must not sum to 0"

/-- Why a player has no rating. -/
inductive Error where
  | noQualifyingPlaylists
  | noData
  | invalidWeights (fault : WeightFault)
  | missingFormula
  | notFinite
  | formula (reason : Formula.Error)
deriving DecidableEq

/-- The message of an error, as a player is told it. -/
def Error.message : Error → String
  | noQualifyingPlaylists => "no playlist meets its minimum games played with a non-zero weight"
  | noData => "player has no games played in any playlist"
  | invalidWeights fault => "invalid weights: " ++ fault.message
  | missingFormula => "algorithm is CUSTOM but no formula is configured"
  | notFinite => "rating is not a finite number"
  | formula reason => "formula error: " ++ reason.message

/-- Lets a finite rating through. -/
def finite (rating : Double) : Except Error Double :=
  if rating.isFinite then .ok rating else .error .notFinite

/-- The mean of the current ratings. -/
def weightedAverage (weights : PerPlaylist Double) (minGames : PerPlaylist UInt32)
    (player : Player) : Except Error Double :=
  match Mean.weighted weights minGames player.games (player.standings.map Standing.current) with
  | .error (.badWeight p) => .error (.invalidWeights (.playlist p (weights.get p)))
  | .error .noneQualifies => .error .noQualifyingPlaylists
  | .ok mean => finite mean

/-- The highest peak rating of the playlists that were played at all, in the total order; of equal
ones the last. -/
def peakRating (player : Player) : Except Error Double :=
  let played := Playlist.all.filter fun p => 0 < player.games.get p
  match played.map fun p => (player.standings.get p).peak with
  | [] => .error .noData
  | first :: rest => finite (rest.foldl (fun best x => if best.atMost x then x else best) first)

/-- The standing in the playlist with the highest current rating; of equal ones the first. -/
def leading (player : Player) : Standing :=
  [player.standings.twos, player.standings.threes, player.standings.fours].foldl
    (fun best x => if best.current.less x.current then x else best) player.standings.ones

/-- The current and the peak rating of the leading playlist, blended. -/
def ascendancy (weights : AscendancyWeights) (player : Player) : Except Error Double :=
  if !Quantity.isWeight weights.current || !Quantity.isWeight weights.peak then
    .error (.invalidWeights (.ascendancy weights))
  else if (weights.current + weights.peak).isZero then .error (.invalidWeights .zeroAscendancy)
  else
    let best := leading player
    finite (weights.current * best.current + weights.peak * best.peak)

/-- The value of a formula as a rating. -/
def ofFormula (formula : Formula) (player : Player) : Except Error Double :=
  (formula.evaluate player).mapError .formula

/-- The rating by an algorithm other than a formula. -/
def builtIn (config : Config) (player : Player) : Except Error Double :=
  match config.algorithm with
  | .weightedAverage => weightedAverage config.allWeights config.allMinGames player
  | .peakMmr => peakRating player
  | .ascendancy => ascendancy config.blend player
  | .custom => .error .missingFormula

/-- The rating of a player.  A formula is compiled anew each time. -/
def rate (config : Config) (player : Player) : Except Error Double :=
  match config.algorithm with
  | .custom =>
    match config.formula? with
    | none => .error .missingFormula
    | some source => do
      let formula ← (Formula.compile .standard source).mapError .formula
      ofFormula formula player
  | _ => builtIn config player

/-- The rating of a player with the formulas of a cache, and the cache afterwards. -/
def rateWith (cache : Formula.Cache) (config : Config) (player : Player) :
    Except Error Double × Formula.Cache :=
  match config.algorithm with
  | .custom =>
    match config.formula? with
    | none => (.error .missingFormula, cache)
    | some source =>
      match cache.get source with
      | (.ok entry, cache) => (ofFormula entry.formula player, cache)
      | (.error e, cache) => (.error (.formula e), cache)
  | _ => (builtIn config player, cache)

end Rating
end GuildRating
