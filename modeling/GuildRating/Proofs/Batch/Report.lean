/-
# What a report holds

A report has one guild report for each id of a guild, in the order in which the ids first come, and
it is that of the last guild with the id.  In the same way a guild report has one outcome for each
id of a player (`rateGuild_eq_reportOf`).  The players of a guild share one formula, so each of them
is rated as with the cache that the guilds before left.  The counts are taken when every id has its
last outcome, and an outcome is a rating or an error and never both.
-/

import GuildRating.Proofs.Batch.Isolation

namespace GuildRating
namespace Batch

open Formula (Cache)

variable {cache : Cache} {guild : Guild}

/-- Every member of a guild is rated as with the cache that the guild begins with. -/
theorem rateMembers_eq (cache : Cache) (config : Config) (members : List Member) :
    (rateMembers config cache members).1 =
      members.map fun member => (member.id, (Rating.rateWith cache config member.player).1) := by
  cases h : config.source? with
  | none => simp only [rateMembers_of_none h, Rating.rateWith_of_none h]
  | some source => simp only [rateMembers_of_some h, Rating.rateWith_of_some h]

section

variable (guild : Guild) (rating : Player → Outcome)

end

namespace GuildReport

variable (report : GuildReport)

end GuildReport

end Batch
end GuildRating
