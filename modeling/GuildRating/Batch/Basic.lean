/-
# Batches

A batch names guilds, their configurations and their players; the report has a rating or an error
for every player.  Guilds and players keep their order, and an id that is repeated keeps its first
place and takes its last value.  Players are rated also under a configuration that may not be
stored, so that the report shows what it does to each of them.
-/

import GuildRating.Batch.Roster
import GuildRating.Config.Record
import GuildRating.Player.Record
import GuildRating.Rating.Basic

namespace GuildRating
namespace Batch

/-- A player under an id. -/
structure Member where
  id : String
  player : Player
deriving DecidableEq

/-- A guild with the configuration it has chosen and the players to be rated by it. -/
structure Guild where
  id : String
  config : Config
  members : List Member
deriving DecidableEq

/-- A player's rating, or why there is none. -/
abbrev Outcome := Except Rating.Error Double

/-- What a batch says of one guild: its algorithm, what is wrong with its configuration, and an
outcome for each player. -/
structure GuildReport where
  algorithm : Algorithm
  /-- Why the configuration may not be stored. -/
  configError : Option Config.Error
  ratings : Roster Outcome

/-- The rating, if the player has one. -/
def Outcome.rating? : Outcome → Option Double
  | .ok rating => some rating
  | .error _ => none

/-- The message of what went wrong, if the player has no rating. -/
def Outcome.error? : Outcome → Option String
  | .ok _ => none
  | .error e => some e.message

/-- Players without a rating. -/
def GuildReport.failed (report : GuildReport) : Nat :=
  report.ratings.values.countP fun outcome : Outcome => outcome.error?.isSome

/-- Players with a rating: those that are left. -/
def GuildReport.rated (report : GuildReport) : Nat := report.ratings.size - report.failed

/-- The reports of all guilds. -/
abbrev Report := Roster GuildReport

/-- How many players have a rating, in all guilds together. -/
def Report.rated (report : Report) : Nat :=
  report.values.foldr (fun guild total => guild.rated + total) 0

/-- How many players have no rating, in all guilds together. -/
def Report.failed (report : Report) : Nat :=
  report.values.foldr (fun guild total => guild.failed + total) 0

/-- What is told about a run while it goes on. -/
inductive Event where
  | started (guilds players : Nat)
  | invalidConfig (guild : String) (error : Config.Error)
  | repeatedPlayer (guild player : String)
  | guildRated (guild : String) (algorithm : Algorithm) (rated failed : Nat)
  | repeatedGuild (guild : String)
  | completed (rated failed compiled : Nat)
deriving DecidableEq

/-- Rates players one after the other with the formulas of one cache. -/
def rateMembers (config : Config) (cache : Formula.Cache) :
    List Member → List (String × Outcome) × Formula.Cache
  | [] => ([], cache)
  | member :: rest =>
    let (outcome, cache) := Rating.rateWith cache config member.player
    let (outcomes, cache) := rateMembers config cache rest
    ((member.id, outcome) :: outcomes, cache)

/-- The error that keeps a configuration from being stored. -/
def configError? (config : Config) : Option Config.Error :=
  match config.check with
  | .ok () => none
  | .error e => some e

/-- Rates the players of a guild. -/
def rateGuild (cache : Formula.Cache) (guild : Guild) : GuildReport × Formula.Cache :=
  let (outcomes, cache) := rateMembers guild.config cache guild.members
  (⟨guild.config.algorithm, configError? guild.config, .ofList outcomes⟩, cache)

/-- What is told about a guild. -/
def guildEvents (guild : Guild) (report : GuildReport) : List Event :=
  (report.configError.map (Event.invalidConfig guild.id)).toList ++
    (Roster.repeated [] (guild.members.map Member.id)).map (Event.repeatedPlayer guild.id) ++
    [.guildRated guild.id report.algorithm report.rated report.failed]

/-- Rates guilds one after the other onto a report. -/
def rateGuilds (report : Report) (cache : Formula.Cache) :
    List Guild → Report × List Event × Formula.Cache
  | [] => (report, [], cache)
  | guild :: rest =>
    let (guildReport, cache) := rateGuild cache guild
    let events := guildEvents guild guildReport ++
      if report.contains guild.id then [.repeatedGuild guild.id] else []
    let (report, later, cache) := rateGuilds (report.put guild.id guildReport) cache rest
    (report, events ++ later, cache)

/-- Rates a whole batch. -/
def run (cache : Formula.Cache) (guilds : List Guild) : Report × List Event × Formula.Cache :=
  let players := guilds.foldr (fun guild total => guild.members.length + total) 0
  let (report, events, cache) := rateGuilds .empty cache guilds
  (report,
    .started guilds.length players :: events ++
      [.completed report.rated report.failed cache.size],
    cache)

end Batch
end GuildRating
