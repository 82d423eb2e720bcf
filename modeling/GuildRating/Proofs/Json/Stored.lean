/-
# Stored configurations and players

What is written for a configuration or a player reads as the same configuration or player, as long
as its numbers are finite: an unset setting is left out and reads as unset, and a setting that is
set but empty stays set.  And a structure is read alike from all objects that differ only in the
order of their fields, in unknown fields and in whether an unset setting is missing or null.

All of this is about JSON values.  Their texts are another matter: a double of many digits may be
off by a bit when it is read from the text that is written for it (see the reading of JSON numbers).
-/

import GuildRating.Config.Record
import GuildRating.Player.Record
import GuildRating.Proofs.Json.Respelled

namespace GuildRating

open Json (Layout Respelled)

/-- An algorithm is read from its name. -/
theorem Algorithm.ofJson?_text (algorithm : Algorithm) :
    ofJson? (.text algorithm.name) = some algorithm := by
  cases algorithm <;> decide

/-- Objects with a current and a peak number, as weights and as standings. -/
def Json.pairLayout : Layout := ⟨["current", "peak"], [], []⟩

/-- The two numbers of a pair stand in its slots. -/
theorem Json.slots?_pair (current peak : Double) :
    Json.slots? ["current", "peak"]
      (.record [("current", .double current), ("peak", .double peak)]) =
        some [some (.double current), some (.double peak)] := by
  have nodup : ["current", "peak"].Nodup := by decide
  exact Json.slots?_ofSlots [("current", some (.double current)), ("peak", some (.double peak))]
    nodup

/-! ### Values for each playlist -/

namespace PerPlaylist

variable {α : Type} {read? : Json → Option α} {write : α → Json}

/-- A map with one field for each playlist, and each may be unset. -/
def layout : Layout := ⟨Playlist.all.map Playlist.name, Playlist.all.map Playlist.name, []⟩

/-- In a map that was written, the slot of a playlist holds its value. -/
theorem slots?_toJson (write : α → Json) (values : PerPlaylist (Option α)) :
    Json.slots? (Playlist.all.map Playlist.name) (values.toJson write) =
      some (Playlist.all.map fun p => (values.get p).map write) := by
  have nodup : (Playlist.all.map Playlist.name).Nodup := by decide
  exact Json.slots?_ofSlots
    (Playlist.all.map fun p : Playlist => (p.name, (values.get p).map write)) nodup

/-- What is written for each playlist is read again, and what is unset stays unset. -/
theorem ofJson?_toJson {values : PerPlaylist (Option α)}
    (h : ∀ p a, values.get p = some a → write a ≠ .null ∧ read? (write a) = some a) :
    ofJson? read? (values.toJson write) = some values := by
  have entry (p : Playlist) : Json.optional? read? ((values.get p).map write) =
      some (values.get p) := Json.optional?_map (h p)
  rw [ofJson?, slots?_toJson]
  simp only [Playlist.all, List.map_cons, List.map_nil, Option.bind_eq_bind, Option.bind_some,
    entry]
  rfl

/-- A map of playlists is read alike however it is spelled. -/
theorem readAlike (read? : Json → Option α) : layout.ReadAlike (ofJson? read?) := by
  intro fields fields' h
  refine h.read_eq fun slots slots' halike => ?_
  have respects (p : Playlist) : layout.Respects p.name (Json.optional? read?) :=
    Json.respects_optional? nofun
  rcases halike with _ | ⟨ones, _ | ⟨twos, _ | ⟨threes, _ | ⟨fours, _ | _⟩⟩⟩⟩
  dsimp only
  rw [ones _ (respects .ones), twos _ (respects .twos), threes _ (respects .threes),
    fours _ (respects .fours)]

end PerPlaylist

/-! ### Configurations -/

namespace AscendancyWeights

/-- The weights of an ascendancy rating are read as they were written. -/
theorem ofJson?_toJson {weights : AscendancyWeights} (hcurrent : weights.current.isFinite = true)
    (hpeak : weights.peak.isFinite = true) : ofJson? weights.toJson = some weights := by
  rw [ofJson?, toJson, Json.slots?_pair]
  simp only [Option.bind_eq_bind, Option.bind_some, Json.required, Json.double?_double hcurrent,
    Json.double?_double hpeak]
  rfl

theorem readAlike : Json.pairLayout.ReadAlike ofJson? := by
  intro fields fields' h
  refine h.read_eq fun slots slots' halike => ?_
  have respects (name : String) : Json.pairLayout.Respects name (Json.required Json.double?) :=
    Json.respects_required nofun nofun
  rcases halike with _ | ⟨current, _ | ⟨peak, _ | _⟩⟩
  dsimp only
  rw [current _ (respects "current"), peak _ (respects "peak")]

end AscendancyWeights

namespace Config

/-- Every number of the configuration is finite. -/
structure IsFinite (config : Config) : Prop where
  weights : ∀ values, config.weights = some values → ∀ p weight, values.get p = some weight →
    weight.isFinite = true
  ascendancyWeights : ∀ weights, config.ascendancyWeights = some weights →
    weights.current.isFinite = true ∧ weights.peak.isFinite = true

/-- All settings but the algorithm may be unset. -/
def layout : Layout :=
  ⟨fieldNames,
    ["weights", "minGamesPlayed", "customFormula", "ascendancyWeights", "formulaValidated"],
    [("weights", PerPlaylist.layout), ("minGamesPlayed", PerPlaylist.layout),
      ("ascendancyWeights", Json.pairLayout)]⟩

/-- **A setting is written exactly if it is set.** -/
theorem slots?_toJson (config : Config) : Json.slots? fieldNames config.toJson =
    some [some (.text config.algorithm.name), config.weights.map (PerPlaylist.toJson .double),
      config.minGames.map (PerPlaylist.toJson fun games => .nat games.toNat),
      config.formula.map .text, config.ascendancyWeights.map AscendancyWeights.toJson,
      config.formulaValidated.map .bool] := by
  have written : config.toJson = Json.ofSlots
      [("algorithm", some (.text config.algorithm.name)),
        ("weights", config.weights.map (PerPlaylist.toJson .double)),
        ("minGamesPlayed", config.minGames.map (PerPlaylist.toJson fun games => .nat games.toNat)),
        ("customFormula", config.formula.map .text),
        ("ascendancyWeights", config.ascendancyWeights.map AscendancyWeights.toJson),
        ("formulaValidated", config.formulaValidated.map .bool)] := by
    simp [toJson, ← Json.record_eq_ofSlots, Json.optional]
  have nodup : fieldNames.Nodup := by decide
  rw [written]
  exact Json.slots?_ofSlots _ nodup

/-- **A configuration with finite numbers reads back.** -/
theorem ofJson?_toJson {config : Config} (h : config.IsFinite) :
    ofJson? config.toJson = some config := by
  have weights : Json.optional? (PerPlaylist.ofJson? Json.double?)
      (config.weights.map (PerPlaylist.toJson .double)) = some config.weights := by
    refine Json.optional?_map fun values hvalues => ⟨nofun, ?_⟩
    refine PerPlaylist.ofJson?_toJson fun p weight hweight => ?_
    have finite := h.weights values hvalues p weight hweight
    exact ⟨Json.double_ne_null finite, Json.double?_double finite⟩
  have minGames : Json.optional? (PerPlaylist.ofJson? Json.count?)
      (config.minGames.map (PerPlaylist.toJson fun games => .nat games.toNat)) =
        some config.minGames := by
    refine Json.optional?_map fun values _ => ⟨nofun, ?_⟩
    exact PerPlaylist.ofJson?_toJson fun p games _ => ⟨nofun, Json.count?_nat games⟩
  have formula : Json.optional? Json.text? (config.formula.map .text) = some config.formula :=
    Json.optional?_map fun _ _ => ⟨nofun, rfl⟩
  have ascendancyWeights : Json.optional? AscendancyWeights.ofJson?
      (config.ascendancyWeights.map AscendancyWeights.toJson) = some config.ascendancyWeights := by
    refine Json.optional?_map fun weights hweights => ⟨nofun, ?_⟩
    obtain ⟨current, peak⟩ := h.ascendancyWeights weights hweights
    exact AscendancyWeights.ofJson?_toJson current peak
  have formulaValidated : Json.optional? Json.bool? (config.formulaValidated.map .bool) =
      some config.formulaValidated := Json.optional?_map fun _ _ => ⟨nofun, rfl⟩
  rw [ofJson?, slots?_toJson]
  simp only [Option.bind_eq_bind, Option.bind_some, Json.required, Algorithm.ofJson?_text, weights,
    minGames, formula, ascendancyWeights, formulaValidated]
  rfl

/-- A configuration is read alike however it is spelled, and so are the maps and weights in it. -/
theorem readAlike : layout.ReadAlike ofJson? := by
  intro fields fields' h
  refine h.read_eq fun slots slots' halike => ?_
  have algorithm : layout.Respects "algorithm" (Json.required Algorithm.ofJson?) :=
    Json.respects_required (by decide) (by simp [layout])
  have weights : layout.Respects "weights" (Json.optional? (PerPlaylist.ofJson? Json.double?)) :=
    Json.respects_optional? (by simp [layout, PerPlaylist.readAlike])
  have minGames : layout.Respects "minGamesPlayed"
      (Json.optional? (PerPlaylist.ofJson? Json.count?)) :=
    Json.respects_optional? (by simp [layout, PerPlaylist.readAlike])
  have formula : layout.Respects "customFormula" (Json.optional? Json.text?) :=
    Json.respects_optional? (by simp [layout])
  have ascendancyWeights : layout.Respects "ascendancyWeights"
      (Json.optional? AscendancyWeights.ofJson?) :=
    Json.respects_optional? (by simp [layout, AscendancyWeights.readAlike])
  have formulaValidated : layout.Respects "formulaValidated" (Json.optional? Json.bool?) :=
    Json.respects_optional? (by simp [layout])
  rcases halike with _ | ⟨h₁, _ | ⟨h₂, _ | ⟨h₃, _ | ⟨h₄, _ | ⟨h₅, _ | ⟨h₆, _ | _⟩⟩⟩⟩⟩⟩
  dsimp only
  rw [h₁ _ algorithm, h₂ _ weights, h₃ _ minGames, h₄ _ formula, h₅ _ ascendancyWeights,
    h₆ _ formulaValidated]

end Config

/-! ### Players -/

namespace Standing

/-- A standing is read as it was written. -/
theorem ofJson?_toJson {standing : Standing} (hcurrent : standing.current.isFinite = true)
    (hpeak : standing.peak.isFinite = true) : ofJson? standing.toJson = some standing := by
  rw [ofJson?, toJson, Json.slots?_pair]
  simp only [Option.bind_eq_bind, Option.bind_some, Json.orElse, Json.double?_double hcurrent,
    Json.double?_double hpeak]
  rfl

theorem readAlike : Json.pairLayout.ReadAlike ofJson? := by
  intro fields fields' h
  refine h.read_eq fun slots slots' halike => ?_
  have respects (name : String) : Json.pairLayout.Respects name (Json.orElse 0 Json.double?) :=
    Json.respects_orElse nofun nofun
  rcases halike with _ | ⟨current, _ | ⟨peak, _ | _⟩⟩
  dsimp only
  rw [current _ (respects "current"), peak _ (respects "peak")]

end Standing

namespace Player

/-- Every number of the player is finite. -/
def IsFinite (player : Player) : Prop :=
  ∀ p, (player.standings.get p).current.isFinite = true ∧
    (player.standings.get p).peak.isFinite = true

/-- No field of a player may be null. -/
def layout : Layout := ⟨fieldNames, [], Playlist.all.map fun p => (p.name, Json.pairLayout)⟩

/-- **A player with finite numbers reads back.** -/
theorem ofJson?_toJson {player : Player} (h : player.IsFinite) :
    ofJson? player.toJson = some player := by
  have nodup : fieldNames.Nodup := by decide
  have slots : Json.slots? fieldNames player.toJson =
      some ((Playlist.all.map fun p => some (player.standings.get p).toJson) ++
        Playlist.all.map fun p => some (.nat (player.games.get p).toNat)) :=
    Json.slots?_ofSlots
      ((Playlist.all.map fun p : Playlist => (p.name, some (player.standings.get p).toJson)) ++
        Playlist.all.map fun p : Playlist =>
          (p.name ++ "Games", some (Json.nat (player.games.get p).toNat))) nodup
  have standing (p : Playlist) : Json.orElse ⟨0, 0⟩ Standing.ofJson?
      (some (player.standings.get p).toJson) = some (player.standings.get p) :=
    Standing.ofJson?_toJson (h p).1 (h p).2
  have games (p : Playlist) : Json.orElse 0 Json.count?
      (some (.nat (player.games.get p).toNat)) = some (player.games.get p) :=
    Json.count?_nat (player.games.get p)
  rw [ofJson?, slots]
  simp only [Playlist.all, List.map_cons, List.map_nil, List.cons_append, List.nil_append,
    Option.bind_eq_bind, Option.bind_some, standing, games]
  rfl

/-- A player is read alike however it is spelled. -/
theorem readAlike : layout.ReadAlike ofJson? := by
  intro fields fields' h
  refine h.read_eq fun slots slots' halike => ?_
  have standing (name : String) : layout.Respects name (Json.orElse ⟨0, 0⟩ Standing.ofJson?) := by
    refine Json.respects_orElse nofun fun inner hinner => ?_
    obtain ⟨p, -, heq⟩ := List.mem_map.1 hinner
    cases heq
    exact Standing.readAlike
  have games (p : Playlist) : layout.Respects (p.name ++ "Games") (Json.orElse 0 Json.count?) := by
    refine Json.respects_orElse nofun fun inner hinner => ?_
    obtain ⟨q, -, heq⟩ := List.mem_map.1 hinner
    have apart : q.name ≠ p.name ++ "Games" := by cases q <;> cases p <;> decide
    exact absurd (Prod.mk.inj heq).1 apart
  rcases halike with _ | ⟨h₁, _ | ⟨h₂, _ | ⟨h₃, _ | ⟨h₄, _ | ⟨h₅, _ | ⟨h₆, _ | ⟨h₇, _ | ⟨h₈,
    _ | _⟩⟩⟩⟩⟩⟩⟩⟩
  dsimp only
  rw [h₁ _ (standing "ones"), h₂ _ (standing "twos"), h₃ _ (standing "threes"),
    h₄ _ (standing "fours"), h₅ _ (games .ones), h₆ _ (games .twos), h₇ _ (games .threes),
    h₈ _ (games .fours)]

end Player

/-! ### What is stored -/

/-- **Stored configurations and players survive a write and a read.**  A configuration or a player
with finite numbers is read from what is written for it; a setting is written exactly if it is set;
and objects whose fields stand in another order, that have further fields, or in which an unset
setting is null and not missing, are read alike, so that the same is written for all of them.  What
is written and read here are JSON values and not their texts. -/
theorem stored_values_survive :
    (∀ config : Config, config.IsFinite → Config.ofJson? config.toJson = some config) ∧
    (∀ config : Config, Json.slots? Config.fieldNames config.toJson =
      some [some (.text config.algorithm.name), config.weights.map (PerPlaylist.toJson .double),
        config.minGames.map (PerPlaylist.toJson fun games => .nat games.toNat),
        config.formula.map .text, config.ascendancyWeights.map AscendancyWeights.toJson,
        config.formulaValidated.map .bool]) ∧
    (∀ (α : Type) (write : α → Json) (values : PerPlaylist (Option α)),
      Json.slots? (Playlist.all.map Playlist.name) (values.toJson write) =
        some (Playlist.all.map fun p => (values.get p).map write)) ∧
    (∀ player : Player, player.IsFinite → Player.ofJson? player.toJson = some player) ∧
    (∀ fields fields', Respelled Config.layout fields fields' →
      Config.ofJson? (.object fields) = Config.ofJson? (.object fields') ∧
        (Config.ofJson? (.object fields)).map Config.toJson =
          (Config.ofJson? (.object fields')).map Config.toJson) ∧
    (∀ fields fields', Respelled Player.layout fields fields' →
      Player.ofJson? (.object fields) = Player.ofJson? (.object fields') ∧
        (Player.ofJson? (.object fields)).map Player.toJson =
          (Player.ofJson? (.object fields')).map Player.toJson) := by
  refine ⟨fun config h => Config.ofJson?_toJson h, Config.slots?_toJson,
    fun α write values => PerPlaylist.slots?_toJson write values,
    fun player h => Player.ofJson?_toJson h, fun fields fields' h => ?_, fun fields fields' h => ?_⟩
  · have alike := Config.readAlike fields fields' h
    exact ⟨alike, congrArg (Option.map Config.toJson) alike⟩
  · have alike := Player.readAlike fields fields' h
    exact ⟨alike, congrArg (Option.map Player.toJson) alike⟩

/-- A configuration with a map of weights in which none is set. -/
def emptyWeights : Config := { Config.byPeak with weights := some (.const none) }

/-- The same with the map first, an unset weight and an unset formula as null, and a note. -/
def emptyWeightsRespelled : List (Option String × Json) :=
  [(some "note", .text "kept"), (some "customFormula", .null),
    (some "weights", .object [(some "twos", .null)]), (some "algorithm", .text "PEAK_MMR")]

/-- The empty map stays set, also in the other spelling, and the sample player reads back. -/
theorem stored_emptyWeights :
    emptyWeights.toJson =
      .record [("algorithm", .text "PEAK_MMR"), ("weights", .record [])] ∧
    Config.ofJson? emptyWeights.toJson = some emptyWeights ∧
    Config.ofJson? (.object emptyWeightsRespelled) = some emptyWeights ∧
    Player.ofJson? Player.sample.toJson = some .sample := by
  obtain ⟨config, -, -, player, respelled, -⟩ := stored_values_survive
  have finite : emptyWeights.IsFinite := by
    refine ⟨fun values hvalues p weight hweight => ?_, fun weights hweights => ?_⟩
    · rw [← Option.some.inj hvalues, PerPlaylist.get_const] at hweight
      cases hweight
    · cases hweights
  have sample : Player.sample.IsFinite := by
    intro p
    cases p <;> decide +kernel
  have weights : Respelled PerPlaylist.layout [] [(some "twos", .null)] :=
    .unset (by decide) rfl
  have inside : Respelled Config.layout
      [(some "weights", .object []), (some "algorithm", .text "PEAK_MMR")]
      [(some "weights", .object [(some "twos", .null)]), (some "algorithm", .text "PEAK_MMR")] :=
    .inside (by simp [Config.layout]) weights
  have same : Respelled Config.layout
      [(some "algorithm", .text "PEAK_MMR"), (some "weights", .object [])]
      emptyWeightsRespelled :=
    (Respelled.reordered (.swap _ _ _)).trans
      (inside.trans ((Respelled.unset (by decide) rfl).trans (.unknown (by decide))))
  refine ⟨rfl, config _ finite, ?_, player _ sample⟩
  rw [← (respelled _ _ same).1]
  exact config _ finite

end GuildRating
