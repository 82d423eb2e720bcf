/-
# Sessions with one cache

What can be done with a cache, as steps, so that any history of it is a list of steps.
-/

import GuildRating.Batch.Basic

namespace GuildRating
namespace Formula
namespace Cache

/-- What a session asks of the cache. -/
inductive Step where
  /-- Ask for the formula of a text. -/
  | get (source : String)
  /-- Evaluate the formula of a text. -/
  | evaluate (source : String) (player : Player)
  | rate (config : Config) (player : Player)
  | batch (guilds : List Batch.Guild)
  | clear

/-- What a step of a session gives back. -/
inductive Answer where
  | entry (entry : Except Error Entry)
  | value (value : Except Error Double)
  | rating (rating : Except Rating.Error Double)
  | report (report : Batch.Report)
  | cleared

/-- One step: its answer and the cache afterwards. -/
def step (cache : Cache) : Step → Answer × Cache
  | .get source =>
    let (entry, cache) := cache.get source
    (.entry entry, cache)
  | .evaluate source player =>
    let (entry, cache) := cache.get source
    (.value (entry.bind fun e => e.formula.evaluate player), cache)
  | .rate config player =>
    let (rating, cache) := Rating.rateWith cache config player
    (.rating rating, cache)
  | .batch guilds =>
    let (report, _, cache) := Batch.run cache guilds
    (.report report, cache)
  | .clear => (.cleared, cache.clear)

/-- A history of steps. -/
def steps (cache : Cache) : List Step → List Answer × Cache
  | [] => ([], cache)
  | first :: rest =>
    let (answer, cache) := cache.step first
    let (answers, cache) := cache.steps rest
    (answer :: answers, cache)

end Cache
end Formula
end GuildRating
