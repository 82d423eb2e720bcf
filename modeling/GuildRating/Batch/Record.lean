/-
# Batches in JSON

A member of a guild is an object that holds the fields of a player beside its id.  As its fields
are set aside before they are read, none of them may hold anything unreadable, known or not, and
no field may be nested deeper than a document allows at that place.
-/

import GuildRating.Batch.Basic

namespace GuildRating
namespace Batch

/-- How deep a member's field may be nested: a document has room for 127 levels, and a member
stands on the fifth. -/
def maxFieldNesting : Nat := 122

/-- Reads a member, whose object holds the id beside the fields of the player.  Such an object must
be sound and not too deep in all its fields, those that nobody asks for included. -/
def Member.ofJson? (value : Json) : Option Member :=
  match value with
  | .object fields =>
    if Json.fieldsAreSound fields &&
        fields.all fun field => field.2.nesting ≤ maxFieldNesting then do
      let id ← Json.slot? fields "playerId"
      return ⟨← Json.required Json.text? id, ← Player.ofJson? value⟩
    else none
  | _ => none

/-- Reads a guild; its id, its configuration and its players must all be there. -/
def Guild.ofJson? (value : Json) : Option Guild := do
  let slots ← Json.slots? ["guildId", "config", "players"] value
  match slots with
  | [id, config, players] =>
    return ⟨← Json.required Json.text? id, ← Json.required Config.ofJson? config,
      ← Json.orElse [] (Json.list? Member.ofJson?) players⟩
  | _ => none

/-- The guilds of a batch. -/
def ofJson? (value : Json) : Option (List Guild) := do
  let slots ← Json.slots? ["guilds"] value
  match slots with
  | [guilds] => Json.required (Json.list? Guild.ofJson?) guilds
  | _ => none

/-- Writes an outcome as a rating or as the message of an error. -/
def Outcome.toJson (outcome : Outcome) : Json :=
  .record (Json.optional "rating" (outcome.rating?.map .double) ++
    Json.optional "error" (outcome.error?.map .text))

/-- Writes what is said of one guild, the counts before the players. -/
def GuildReport.toJson (report : GuildReport) : Json :=
  .record ([("algorithm", .text report.algorithm.name)] ++
    Json.optional "configError" (report.configError.map fun e => .text e.message) ++
    [("rated", .nat report.rated), ("failed", .nat report.failed),
      ("ratings", .record (report.ratings.entries.map fun entry =>
        (entry.1, Outcome.toJson entry.2)))])

/-- Writes a report as an object with one field for each guild, in the order of the report. -/
def Report.toJson (report : Report) : Json :=
  .record (report.entries.map fun entry => (entry.1, entry.2.toJson))

end Batch
end GuildRating
