/-
# Configurations in JSON

Settings that are unset are left out when written, and may be missing or null when read.
-/

import GuildRating.Config.Basic
import GuildRating.Json.Record

namespace GuildRating

/-- An algorithm is named by a string, or by the only field of an object, which is null. -/
def Algorithm.ofJson? : Json → Option Algorithm
  | .string (some name) => ofName? name
  | .object [(some name, .null)] => ofName? name
  | _ => none

namespace PerPlaylist

variable {α : Type}

/-- One optional value for each playlist. -/
def ofJson? (read? : Json → Option α) (value : Json) : Option (PerPlaylist (Option α)) := do
  let slots ← Json.slots? (Playlist.all.map Playlist.name) value
  let entry := Json.optional? read?
  match slots with
  | [ones, twos, threes, fours] =>
    return ⟨← entry ones, ← entry twos, ← entry threes, ← entry fours⟩
  | _ => none

/-- Writes one value for each playlist, leaving out those that are not set. -/
def toJson (write : α → Json) (values : PerPlaylist (Option α)) : Json :=
  .record (Playlist.all.flatMap fun p => Json.optional p.name ((values.get p).map write))

end PerPlaylist

namespace AscendancyWeights

/-- Reads the weights of a blend, both of which must be there. -/
def ofJson? (value : Json) : Option AscendancyWeights := do
  let slots ← Json.slots? ["current", "peak"] value
  match slots with
  | [current, peak] =>
    return ⟨← Json.required Json.double? current, ← Json.required Json.double? peak⟩
  | _ => none

/-- Writes the weights of a blend. -/
def toJson (weights : AscendancyWeights) : Json :=
  .record [("current", .double weights.current), ("peak", .double weights.peak)]

end AscendancyWeights

namespace Config

/-- The fields of a configuration in their order. -/
def fieldNames : List String :=
  ["algorithm", "weights", "minGamesPlayed", "customFormula", "ascendancyWeights",
    "formulaValidated"]

/-- Reads a configuration, of which only the algorithm must be there. -/
def ofJson? (value : Json) : Option Config := do
  let slots ← Json.slots? fieldNames value
  match slots with
  | [algorithm, weights, minGames, formula, ascendancyWeights, formulaValidated] =>
    return {
      algorithm := ← Json.required Algorithm.ofJson? algorithm
      weights := ← Json.optional? (PerPlaylist.ofJson? Json.double?) weights
      minGames := ← Json.optional? (PerPlaylist.ofJson? Json.count?) minGames
      formula := ← Json.optional? Json.text? formula
      ascendancyWeights := ← Json.optional? AscendancyWeights.ofJson? ascendancyWeights
      formulaValidated := ← Json.optional? Json.bool? formulaValidated }
  | _ => none

/-- Writes a configuration, leaving out what is not set. -/
def toJson (config : Config) : Json :=
  .record ([("algorithm", .text config.algorithm.name)] ++
    Json.optional "weights" (config.weights.map (PerPlaylist.toJson .double)) ++
    Json.optional "minGamesPlayed"
      (config.minGames.map (PerPlaylist.toJson fun games => .nat games.toNat)) ++
    Json.optional "customFormula" (config.formula.map .text) ++
    Json.optional "ascendancyWeights" (config.ascendancyWeights.map AscendancyWeights.toJson) ++
    Json.optional "formulaValidated" (config.formulaValidated.map .bool))

end Config
end GuildRating
