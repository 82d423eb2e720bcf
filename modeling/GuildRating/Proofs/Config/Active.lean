/-
# Settings that are left over

A configuration keeps the settings of all algorithms, so that a guild can switch and switch back.
Those of the algorithms that are not chosen are never looked at, whatever they hold.  Two
configurations act alike if they choose the same algorithm and agree on what it reads, where a
setting that is not made counts as its default (`Config.ActsAlike`).  The check, the rating and the
rating with a cache see no difference between them, and a batch comes to the same reports, tells the
same and leaves the same cache (`only_active_settings_count`).
-/

import Mathlib.Data.List.Forall2
import GuildRating.Batch.Basic

namespace GuildRating

/-- The configurations choose the same algorithm and agree on all that it reads. -/
structure Config.ActsAlike (config config' : Config) : Prop where
  algorithm : config.algorithm = config'.algorithm
  weights : config.algorithm = .weightedAverage → config.allWeights = config'.allWeights
  minGames : config.algorithm = .weightedAverage → config.allMinGames = config'.allMinGames
  blend : config.algorithm = .ascendancy → config.blend = config'.blend
  formula : config.algorithm = .custom → config.formula? = config'.formula?

namespace Config

variable {config config' : Config}

/-! ### One player -/

namespace ActsAlike

/-- The check sees no difference between configurations that act alike. -/
theorem check_eq (h : config.ActsAlike config') : config.check = config'.check := by
  rw [check, check, ← h.algorithm]
  cases ha : config.algorithm with
  | weightedAverage => rw [h.weights ha]
  | peakMmr => rfl
  | custom => rw [h.formula ha]
  | ascendancy => rw [h.blend ha]

/-- Neither does a rating by an algorithm other than a formula. -/
theorem builtIn_eq (h : config.ActsAlike config') (player : Player) :
    Rating.builtIn config player = Rating.builtIn config' player := by
  rw [Rating.builtIn, Rating.builtIn, ← h.algorithm]
  cases ha : config.algorithm with
  | weightedAverage => rw [h.weights ha, h.minGames ha]
  | peakMmr => rfl
  | custom => rfl
  | ascendancy => rw [h.blend ha]

/-- Neither does a rating. -/
theorem rate_eq (h : config.ActsAlike config') (player : Player) :
    Rating.rate config player = Rating.rate config' player := by
  rw [Rating.rate, Rating.rate, ← h.algorithm, h.builtIn_eq]
  cases ha : config.algorithm with
  | custom => rw [h.formula ha]
  | _ => rfl

/-- Neither does a rating with a cache, nor the cache. -/
theorem rateWith_eq (h : config.ActsAlike config') (cache : Formula.Cache) (player : Player) :
    Rating.rateWith cache config player = Rating.rateWith cache config' player := by
  rw [Rating.rateWith, Rating.rateWith, ← h.algorithm, h.builtIn_eq]
  cases ha : config.algorithm with
  | custom => rw [h.formula ha]
  | _ => rfl

end ActsAlike

/-! ### Spellings of one configuration -/

/-- The configuration without what its algorithm does not read. -/
def active (config : Config) : Config where
  algorithm := config.algorithm
  weights := if config.algorithm = .weightedAverage then config.weights else none
  minGames := if config.algorithm = .weightedAverage then config.minGames else none
  formula := if config.algorithm = .custom then config.formula else none
  ascendancyWeights := if config.algorithm = .ascendancy then config.ascendancyWeights else none
  formulaValidated := none

/-- The configuration with all defaults written out, and a blank formula left out. -/
def explicit (config : Config) : Config where
  algorithm := config.algorithm
  weights := some (config.allWeights.map some)
  minGames := some (config.allMinGames.map some)
  formula := config.formula?
  ascendancyWeights := some config.blend
  formulaValidated := config.formulaValidated

/-- What the algorithm does not read can be left out. -/
theorem actsAlike_active (config : Config) : config.ActsAlike config.active where
  algorithm := rfl
  weights h := by simp only [allWeights, active, if_pos h]
  minGames h := by simp only [allMinGames, active, if_pos h]
  blend h := by simp only [Config.blend, active, if_pos h]
  formula h := by simp only [formula?, active, if_pos h]

/-- What is not set can be written out. -/
theorem actsAlike_explicit (config : Config) : config.ActsAlike config.explicit where
  algorithm := rfl
  weights _ := rfl
  minGames _ := rfl
  blend _ := rfl
  formula _ := by simp [formula?, explicit]

end Config

/-! ### Batches -/

namespace Batch

/-- The guilds have the same id and the same players, and configurations that act alike. -/
structure Guild.ActsAlike (guild guild' : Guild) : Prop where
  id : guild.id = guild'.id
  members : guild.members = guild'.members
  config : guild.config.ActsAlike guild'.config

variable {guild guild' : Guild} {guilds guilds' : List Guild} {config config' : Config}

/-- Configurations that act alike rate the members of a guild alike. -/
theorem rateMembers_of_actsAlike (h : config.ActsAlike config') (members : List Member)
    (cache : Formula.Cache) :
    rateMembers config cache members = rateMembers config' cache members := by
  induction members generalizing cache with
  | nil => rfl
  | cons member members ih => simp only [rateMembers, h.rateWith_eq, ih]

/-- Guilds that act alike get the same report and leave the same cache. -/
theorem rateGuild_of_actsAlike (h : guild.ActsAlike guild') (cache : Formula.Cache) :
    rateGuild cache guild = rateGuild cache guild' := by
  rw [rateGuild, rateGuild, configError?, configError?, h.members, h.config.algorithm,
    h.config.check_eq, rateMembers_of_actsAlike h.config]

/-- So do guilds that act alike one by one, in a batch. -/
theorem rateGuilds_of_actsAlike (h : List.Forall₂ Guild.ActsAlike guilds guilds')
    (report : Report) (cache : Formula.Cache) :
    rateGuilds report cache guilds = rateGuilds report cache guilds' := by
  induction h generalizing report cache with
  | nil => rfl
  | cons alike _ ih =>
    rw [rateGuilds, rateGuilds, rateGuild_of_actsAlike alike]
    simp only [guildEvents, alike.id, alike.members, ih]

/-- What the guilds of a batch have left over from other algorithms shows in nothing of the run. -/
theorem run_of_actsAlike (h : List.Forall₂ Guild.ActsAlike guilds guilds')
    (cache : Formula.Cache) : run cache guilds = run cache guilds' := by
  have players : guilds.foldr (fun guild total => guild.members.length + total) 0 =
      guilds'.foldr (fun guild total => guild.members.length + total) 0 := by
    induction h with
    | nil => rfl
    | cons alike _ ih => rw [List.foldr_cons, List.foldr_cons, alike.members, ih]
  simp only [run, players, h.length_eq, rateGuilds_of_actsAlike h]

end Batch

open Rating (rate rateWith)

/-- **Only the settings of the chosen algorithm count.**  Configurations that choose the same
algorithm and agree on what it reads, whatever else they hold, are checked and rated alike for every
player, and with every cache, which is left the same.  Guilds with such configurations come to the
same report in every batch, and the batch tells the same and leaves the same cache.  So does a
configuration without its leftovers, and with its defaults written out. -/
theorem only_active_settings_count :
    (∀ config config' : Config, config.ActsAlike config' →
      config.check = config'.check ∧
      (∀ player, rate config player = rate config' player) ∧
      ∀ cache player, rateWith cache config player = rateWith cache config' player) ∧
    (∀ guilds guilds' : List Batch.Guild, List.Forall₂ Batch.Guild.ActsAlike guilds guilds' →
      ∀ cache, Batch.run cache guilds = Batch.run cache guilds') ∧
    ∀ config : Config, config.ActsAlike config.active ∧ config.ActsAlike config.explicit := by
  refine ⟨fun config config' h => ⟨h.check_eq, h.rate_eq, h.rateWith_eq⟩, ?_, ?_⟩
  · intro guilds guilds' h cache
    exact Batch.run_of_actsAlike h cache
  · intro config
    exact ⟨config.actsAlike_active, config.actsAlike_explicit⟩

/-- A guild that weighed and blended by what is no number and rated by half a formula, before it
switched to the highest peak. -/
def switchedToPeak : Config :=
  ⟨.peakMmr, some ⟨some .nan, some (.infinity true), none, none⟩, some (.const (some 10)),
    some "max(ones", some ⟨.nan, .nan⟩, some true⟩

/-- Guilds with one player each. -/
def onePlayerGuilds (configs : List Config) : List Batch.Guild :=
  configs.map fun config => ⟨config.algorithm.name, config, [⟨"player", .sample⟩]⟩

/-- Guilds of one player each act alike if their configurations do. -/
theorem actsAlike_onePlayerGuilds {configs configs' : List Config}
    (h : List.Forall₂ Config.ActsAlike configs configs') :
    List.Forall₂ Batch.Guild.ActsAlike (onePlayerGuilds configs) (onePlayerGuilds configs') := by
  rw [onePlayerGuilds, onePlayerGuilds, List.forall₂_map_left_iff, List.forall₂_map_right_iff]
  refine h.imp fun config config' alike => ⟨?_, rfl, alike⟩
  rw [alike.algorithm]

/-- The guild is checked and rated as if it had never chosen anything else, alone and in a batch
behind a guild that leaves its blend open, which in turn may as well write it out. -/
theorem only_active_settings_count_switched :
    let blended := Config.byAscendancy none
    switchedToPeak.ActsAlike .byPeak ∧ switchedToPeak.check = .ok () ∧
    rate switchedToPeak .sample = .ok (.ofNat 1410) ∧
    rateWith (.empty .standard) switchedToPeak .sample =
      rateWith (.empty .standard) .byPeak .sample ∧
    List.Forall₂ Batch.Guild.ActsAlike (onePlayerGuilds [blended, switchedToPeak])
      (onePlayerGuilds [blended.explicit, .byPeak]) ∧
    Batch.run (.empty .standard) (onePlayerGuilds [blended, switchedToPeak]) =
      Batch.run (.empty .standard) (onePlayerGuilds [blended.explicit, .byPeak]) := by
  intro blended
  obtain ⟨alone, batches, spelled⟩ := only_active_settings_count
  have left : switchedToPeak.ActsAlike .byPeak := (spelled switchedToPeak).1
  have guilds :
      List.Forall₂ Config.ActsAlike [blended, switchedToPeak] [blended.explicit, .byPeak] :=
    .cons (spelled blended).2 (.cons left .nil)
  obtain ⟨checked, rated, cached⟩ := alone _ _ left
  refine ⟨left, checked, ?_, cached _ _, actsAlike_onePlayerGuilds guilds,
    batches _ _ (actsAlike_onePlayerGuilds guilds) _⟩
  rw [rated]
  decide +kernel

end GuildRating
