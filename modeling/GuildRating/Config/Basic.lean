/-
# Configurations

A guild chooses the algorithm by which its players are rated and may set what the algorithms need.
Settings of the other algorithms are kept, so that a guild can switch back, but only those of the
chosen one matter.  `Config.check` is made before a configuration is stored.
-/

import GuildRating.Formula.Answers
import GuildRating.Player.Basic
import GuildRating.Rating.Mean

namespace GuildRating

/-- How players are rated. -/
inductive Algorithm where
  | weightedAverage
  | peakMmr
  | custom
  | ascendancy
deriving DecidableEq, Repr

namespace Algorithm

/-- All algorithms. -/
def all : List Algorithm := [weightedAverage, peakMmr, custom, ascendancy]

/-- The name of an algorithm in a stored configuration. -/
def name : Algorithm → String
  | weightedAverage => "WEIGHTED_AVERAGE"
  | peakMmr => "PEAK_MMR"
  | custom => "CUSTOM"
  | ascendancy => "ASCENDANCY"

/-- The algorithm with a name. -/
def ofName? (name : String) : Option Algorithm := all.find? fun a => a.name = name

end Algorithm

/-- How much the current and the peak rating count in an ascendancy rating. -/
structure AscendancyWeights where
  current : Double
  peak : Double
deriving DecidableEq

/-- A quarter for the current rating, three quarters for the peak. -/
def AscendancyWeights.standard : AscendancyWeights :=
  ⟨.ofQuotient false (Nat.pow 2 1072) 1, .ofQuotient false (3 * Nat.pow 2 1072) 1⟩

/-- What a guild has chosen and set. -/
structure Config where
  algorithm : Algorithm
  /-- How much each playlist counts in a weighted average. -/
  weights : Option (PerPlaylist (Option Double))
  /-- How many games it takes for a playlist to count in a weighted average. -/
  minGames : Option (PerPlaylist (Option UInt32))
  formula : Option String
  ascendancyWeights : Option AscendancyWeights
  /-- Whether the formula was once found valid.  Nothing relies on it. -/
  formulaValidated : Option Bool
deriving DecidableEq

namespace Config

/-- The configuration with an algorithm and no settings. -/
def ofAlgorithm (algorithm : Algorithm) : Config := ⟨algorithm, none, none, none, none, none⟩

/-- Rates by the mean of the current ratings. -/
def byAverage (weights : PerPlaylist (Option Double))
    (minGames : Option (PerPlaylist (Option UInt32))) : Config :=
  { ofAlgorithm .weightedAverage with weights := some weights, minGames }

/-- Rates by the highest peak. -/
def byPeak : Config := ofAlgorithm .peakMmr

/-- Rates by a blend of the leading playlist's current and peak rating. -/
def byAscendancy (weights : Option AscendancyWeights) : Config :=
  { ofAlgorithm .ascendancy with ascendancyWeights := weights }

/-- Rates by a formula. -/
def byFormula (source : String) : Config := { ofAlgorithm .custom with formula := some source }

/-- The weights of all playlists, those not set being zero. -/
def allWeights (config : Config) : PerPlaylist Double :=
  (config.weights.getD (.const none)).map fun weight => weight.getD 0

/-- The thresholds of all playlists, those not set being zero. -/
def allMinGames (config : Config) : PerPlaylist UInt32 :=
  (config.minGames.getD (.const none)).map fun games => games.getD 0

/-- The weights of an ascendancy rating, the standard ones if none are set. -/
def blend (config : Config) : AscendancyWeights := config.ascendancyWeights.getD .standard

/-- The formula, unless it is blank. -/
def formula? (config : Config) : Option String :=
  config.formula.filter fun text => !Text.allBlank text

/-- The setting that a weight belongs to. -/
inductive WeightField where
  | playlist (playlist : Playlist)
  | ascendancyCurrent
  | ascendancyPeak
deriving DecidableEq, Repr

/-- The path of the setting in a stored configuration. -/
def WeightField.name : WeightField → String
  | playlist p => "weights." ++ p.name
  | ascendancyCurrent => "ascendancyWeights.current"
  | ascendancyPeak => "ascendancyWeights.peak"

/-- Why a configuration may not be stored. -/
inductive Error where
  | missingFormula
  | invalidFormula (reason : Formula.Error)
  | invalidWeight (field : WeightField) (value : Double)
  | noWeights
  | zeroAscendancyWeights
deriving DecidableEq

/-- The message of an error, which names the setting that it is about. -/
def Error.message : Error → String
  | missingFormula => "customFormula is required when algorithm is CUSTOM"
  | invalidFormula reason => "customFormula is invalid: " ++ reason.message
  | invalidWeight field value =>
    field.name ++ " must be a finite, non-negative number (got " ++ value.text ++ ")"
  | noWeights => "at least one playlist weight must be greater than 0"
  | zeroAscendancyWeights =>
    "ascendancyWeights.current + ascendancyWeights.peak must be greater than 0"

/-- Lets a weight through. -/
def checkWeight (field : WeightField) (value : Double) : Except Error Unit :=
  if Quantity.isWeight value then .ok () else .error (.invalidWeight field value)

/-- The check of the chosen algorithm's settings. -/
def check (config : Config) : Except Error Unit :=
  match config.algorithm with
  | .weightedAverage => do
    let weights := config.allWeights
    Playlist.all.forM fun p => checkWeight (.playlist p) (weights.get p)
    if Playlist.all.all fun p => (weights.get p).isZero then .error .noWeights
  | .peakMmr => .ok ()
  | .ascendancy => do
    let weights := config.blend
    checkWeight .ascendancyCurrent weights.current
    checkWeight .ascendancyPeak weights.peak
    if (weights.current + weights.peak).isZero then .error .zeroAscendancyWeights
  | .custom =>
    match config.formula? with
    | none => .error .missingFormula
    | some source =>
      match Formula.judge .standard source with
      | .accepted _ => .ok ()
      | .refused reason => .error (.invalidFormula reason)

end Config
end GuildRating
