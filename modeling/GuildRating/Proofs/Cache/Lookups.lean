/-
# A cache changes by look-ups only

Rating a player looks up at most one formula, a batch rates its players one after the other, and a
session is a list of such steps and of clearings.  So whatever one look-up keeps, every batch keeps
(`Kept.run`), and if clearing keeps it too, it holds after every history (`Kept.after`).
-/

import GuildRating.Formula.Session
import GuildRating.Proofs.Steps

namespace GuildRating

namespace Rating

open Formula (Cache)

variable {cache : Cache} {config : Config} {player : Player} {source : String}

/-- The rating by a text of which the tree, or why it has none, is known. -/
def ofTree (tree : Except Formula.Error Formula.Expr) (player : Player) : Except Error Double :=
  (tree >>= fun tree => (tree.eval .full (.ofPlayer player)).mapError Formula.Error.eval).mapError
    Error.formula

/-- Algorithms other than a formula do not ask for one. -/
theorem rate_builtIn (h : config.algorithm ≠ .custom) :
    rate config player = builtIn config player := by
  rw [rate]
  split
  · next hc => exact absurd hc h
  · rfl

/-- Without a formula there is no rating by a formula. -/
theorem rate_missing (h : config.algorithm = .custom) (hf : config.formula? = none) :
    rate config player = .error .missingFormula := by
  rw [rate, h, hf]

/-- A rating by a formula is the rating by the tree that compiling gives. -/
theorem rate_custom (h : config.algorithm = .custom) (hf : config.formula? = some source) :
    rate config player = ofTree ((Formula.compile .standard source).map Formula.tree) player := by
  simp only [rate, h, hf]
  cases Formula.compile .standard source with
  | error e => rfl
  | ok formula => rfl

/-- Algorithms other than a formula leave the cache as it is. -/
theorem rateWith_builtIn (h : config.algorithm ≠ .custom) :
    rateWith cache config player = (builtIn config player, cache) := by
  rw [rateWith]
  split
  · next hc => exact absurd hc h
  · rfl

/-- Without a formula nothing is looked up. -/
theorem rateWith_missing (h : config.algorithm = .custom) (hf : config.formula? = none) :
    rateWith cache config player = (.error .missingFormula, cache) := by
  rw [rateWith, h, hf]

/-- A rating by a formula is the rating by the tree that the look-up gives, and leaves what the
look-up leaves. -/
theorem rateWith_custom (h : config.algorithm = .custom) (hf : config.formula? = some source) :
    rateWith cache config player =
      (ofTree ((cache.get source).1.map fun entry => entry.formula.tree) player,
        (cache.get source).2) := by
  simp only [rateWith, h, hf]
  obtain ⟨entry, cache'⟩ := cache.get source
  cases entry with
  | error e => rfl
  | ok entry => rfl

end Rating

namespace Formula
namespace Cache

variable {P : Cache → Prop} {cache : Cache}

/-- Every look-up keeps the property. -/
def Kept (P : Cache → Prop) : Prop := ∀ cache source, P cache → P (cache.get source).2

/-- What look-ups keep, rating a player keeps. -/
theorem Kept.rateWith (hP : Kept P) (h : P cache) (config : Config) (player : Player) :
    P (Rating.rateWith cache config player).2 := by
  by_cases hc : config.algorithm = .custom
  · cases hf : config.formula? with
    | none =>
      rw [Rating.rateWith_missing hc hf]
      exact h
    | some source =>
      rw [Rating.rateWith_custom hc hf]
      exact hP cache source h
  · rw [Rating.rateWith_builtIn hc]
    exact h

/-- What look-ups keep, rating the members of a guild keeps. -/
theorem Kept.rateMembers (hP : Kept P) (config : Config) (members : List Batch.Member)
    (h : P cache) : P (Batch.rateMembers config cache members).2 := by
  induction members generalizing cache with
  | nil => exact h
  | cons member members ih => exact ih (hP.rateWith h config member.player)

/-- What look-ups keep, rating guilds keeps. -/
theorem Kept.rateGuilds (hP : Kept P) (guilds : List Batch.Guild) (report : Batch.Report)
    (h : P cache) : P (Batch.rateGuilds report cache guilds).2.2 := by
  induction guilds generalizing cache report with
  | nil => exact h
  | cons guild guilds ih => exact ih _ (hP.rateMembers guild.config guild.members h)

/-- **What a look-up keeps, a batch keeps.** -/
theorem Kept.run (hP : Kept P) (guilds : List Batch.Guild) (h : P cache) :
    P (Batch.run cache guilds).2.2 :=
  hP.rateGuilds guilds .empty h

/-- What look-ups and clearings keep, every step of a session keeps. -/
theorem Kept.step (hP : Kept P) (hclear : ∀ cache, P cache → P cache.clear) (h : P cache) :
    (step : Step) → P (cache.step step).2
  | .get source => hP cache source h
  | .evaluate source _ => hP cache source h
  | .rate config player => hP.rateWith h config player
  | .batch guilds => hP.run guilds h
  | .clear => hclear cache h

/-- What look-ups and clearings keep, a session keeps. -/
theorem Kept.steps (hP : Kept P) (hclear : ∀ cache, P cache → P cache.clear)
    (history : List Step) (h : P cache) : P (cache.steps history).2 := by
  induction history generalizing cache with
  | nil => exact h
  | cons step history ih => exact ih (hP.step hclear h step)

/-- The cache after a history that began with an empty one. -/
def after (limits : Limits) (history : List Step) : Cache := ((empty limits).steps history).2

/-- **What look-ups and clearings keep holds after every history**, if it holds of the empty
cache. -/
theorem Kept.after (hP : Kept P) (hclear : ∀ cache, P cache → P cache.clear) {limits : Limits}
    (hempty : P (empty limits)) (history : List Step) : P (after limits history) :=
  hP.steps hclear history hempty

end Cache
end Formula
end GuildRating
