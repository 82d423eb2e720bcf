/-
# The look-ups of a session

Unless it clears the cache, all that a step does to it is to look up texts, one after the other and
whatever comes of each: `Step.sources` names them, for a batch one for each member of each guild
that is rated by a formula (`step_eq_lookups`).  The texts that are found or compiled on the way are
hits.  A log keeps the hits of a session, stretch by stretch between clearings.
-/

import GuildRating.Proofs.Cache.Contents

namespace GuildRating
namespace Formula
namespace Cache

/-- A text that was looked up, and the formula that it got. -/
structure Hit where
  source : String
  entry : Entry
deriving DecidableEq

/-- The normal form of the text. -/
def Hit.key (hit : Hit) : String := Text.collapse hit.source

/-- The hit that an answer is, if it is not an error. -/
def hits (source : String) : Except Error Entry → List Hit
  | .ok entry => [⟨source, entry⟩]
  | .error _ => []

/-- Looks up texts one after the other: the hits, and the cache afterwards. -/
def lookups (cache : Cache) : List String → List Hit × Cache
  | [] => ([], cache)
  | source :: rest =>
    let (answer, cache) := cache.get source
    let (later, cache) := cache.lookups rest
    (hits source answer ++ later, cache)

/-- The texts that a step looks up. -/
def Step.sources : Step → List String
  | .get source => [source]
  | .evaluate source _ => [source]
  | .rate config _ => config.source?.toList
  | .batch guilds => guilds.flatMap fun guild =>
      guild.members.flatMap fun _ => guild.config.source?.toList
  | .clear => []

/-- Look-ups can be made in two goes. -/
theorem lookups_append (cache : Cache) (first later : List String) :
    (cache.lookups (first ++ later)).2 = ((cache.lookups first).2.lookups later).2 := by
  induction first generalizing cache with
  | nil => rfl
  | cons source first ih => exact ih (cache.get source).2

/-- What one look-up keeps, look-ups keep. -/
theorem Kept.lookups {P : Cache → Prop} {cache : Cache} (hP : Kept P) (sources : List String)
    (h : P cache) : P (cache.lookups sources).2 := by
  induction sources generalizing cache with
  | nil => exact h
  | cons source sources ih => exact ih (hP cache source h)

/-- Rating a player does to the cache what a look-up of the formula does, if there is one. -/
theorem rateWith_eq_lookups (cache : Cache) (config : Config) (player : Player) :
    (Rating.rateWith cache config player).2 = (cache.lookups config.source?.toList).2 := by
  cases h : config.source? with
  | none =>
    rw [Rating.rateWith_of_none h]
    rfl
  | some source =>
    rw [Rating.rateWith_of_some h]
    rfl

/-- Rating members does to the cache what one look-up for each of them does. -/
theorem rateMembers_eq_lookups (cache : Cache) (config : Config) (members : List Batch.Member) :
    (Batch.rateMembers config cache members).2 =
      (cache.lookups (members.flatMap fun _ => config.source?.toList)).2 := by
  induction members generalizing cache with
  | nil => rfl
  | cons member members ih =>
    rw [List.flatMap_cons, lookups_append, ← rateWith_eq_lookups cache config member.player, ← ih]
    rfl

/-- Rating guilds does to the cache what the look-ups for all their members do. -/
theorem rateGuilds_eq_lookups (cache : Cache) (guilds : List Batch.Guild) (report : Batch.Report) :
    (Batch.rateGuilds report cache guilds).2.2 =
      (cache.lookups (Step.batch guilds).sources).2 := by
  induction guilds generalizing cache report with
  | nil => rfl
  | cons guild guilds ih =>
    rw [Step.sources, List.flatMap_cons, lookups_append, ← rateMembers_eq_lookups]
    exact ih _ _

/-- **A step changes a cache by looking up its texts**, unless it clears it. -/
theorem step_eq_lookups (cache : Cache) {step : Step} (h : step ≠ .clear) :
    (cache.step step).2 = (cache.lookups step.sources).2 := by
  cases step with
  | get source => rfl
  | evaluate source player => rfl
  | rate config player => exact rateWith_eq_lookups cache config player
  | batch guilds => exact rateGuilds_eq_lookups cache guilds .empty
  | clear => exact absurd rfl h

/-- The hits of a session, oldest first. -/
structure Log where
  /-- Those before the last clearing, stretch by stretch. -/
  past : List (List Hit)
  /-- Those since the last clearing. -/
  recent : List Hit
deriving DecidableEq

namespace Log

/-- The log of nothing. -/
def empty : Log := ⟨[], []⟩

/-- All stretches, the present one last. -/
def stretches (log : Log) : List (List Hit) := log.past ++ [log.recent]

/-- Every formula that was handed out, as often as it was. -/
def entries (log : Log) : List Entry := log.stretches.flatten.map Hit.entry

/-- The normal forms of the hits since the last clearing. -/
def keys (log : Log) : List String := log.recent.map Hit.key

/-- The log with hits of the present stretch. -/
def add (log : Log) (hits : List Hit) : Log := ⟨log.past, log.recent ++ hits⟩

/-- The log after a step that begins with this cache. -/
def step (log : Log) (cache : Cache) : Step → Log
  | .clear => ⟨log.stretches, []⟩
  | step => log.add (cache.lookups step.sources).1

/-- The log after steps of which the first begins with this cache. -/
def steps (log : Log) (cache : Cache) : List Step → Log
  | [] => log
  | first :: rest => (log.step cache first).steps (cache.step first).2 rest

/-- The log of a history that began with an empty cache. -/
def after (limits : Limits) (history : List Step) : Log := empty.steps (.empty limits) history

end Log
end Cache
end Formula
end GuildRating
