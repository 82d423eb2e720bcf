/-
# How many formulas a batch compiles

A guild has its formula compiled if it is rated by one, has players at all and the formula compiles
(`Guild.Compiles`).  Such a guild leaves its formula in the cache under the normal form, unless an
earlier guild has left one there, and any other guild leaves the cache as it is
(`rateGuild_snd_of_idle`).  As no normal form is held twice (`nodup_keys_run`), the size of the
cache after a batch is the number of these normal forms (`batch_compiles_each_formula_once`).

That the calls for the players of a guild may overlap changes nothing: whatever the calls do, a
guild leaves the cache that it leaves when its players are rated one after the other
(`leaves_iff`).
-/

import Mathlib.Data.Set.Card
import GuildRating.Proofs.Batch.Order

namespace GuildRating

namespace Formula
namespace Cache

variable {cache : Cache} {key : String}

/-- The normal forms of the formulas that are held. -/
def keys (cache : Cache) : List String := cache.entries.map Prod.fst

/-- Nothing is found exactly for what is no key. -/
theorem find?_eq_none_iff : cache.find? key = none ↔ key ∉ cache.keys := by
  rw [find?, List.lookup_eq_none_iff, keys, List.mem_map]
  simp only [bne_iff_ne, not_exists, not_and]
  exact forall₂_congr fun entry _ => ne_comm

/-- The cache holds a normal form exactly if it is among the keys. -/
theorem holds_iff_mem_keys : cache.Holds key ↔ key ∈ cache.keys := by
  rw [Holds, Option.isSome_iff_ne_none, ne_eq, find?_eq_none_iff, not_not]

/-- No normal form is held twice. -/
theorem kept_nodup_keys : Kept fun cache => cache.keys.Nodup :=
  Kept.of_insert fun _ _ _ h hfind _ => List.nodup_cons.2 ⟨find?_eq_none_iff.1 hfind, h⟩

/-- A formula that is compiled gets the next number and is held. -/
theorem kept_nextSerial_eq_size : Kept fun cache => cache.nextSerial = cache.size :=
  Kept.of_insert fun _ _ _ h _ _ => congrArg Nat.succ h

/-- A text that does not compile leaves the cache as it is, also if its normal form is held. -/
theorem get_snd_of_not_compiles {limits : Limits} {source : String}
    (hlimits : cache.limits = limits) (h : ¬ Compiles limits source) :
    (cache.get source).2 = cache := by
  cases hfind : cache.find? (Text.collapse source) with
  | some entry => rw [get_of_find?_eq_some hfind]
  | none =>
    rw [get_of_find?_eq_none hfind, hlimits]
    cases hcompile : compile limits source with
    | error e => rfl
    | ok formula => exact absurd ⟨formula, hcompile⟩ h

end Cache
end Formula

namespace Batch

open Formula (Cache Compiles)

variable {cache last : Cache} {guild : Guild} {guilds : List Guild}

/-! ### What a guild leaves -/

/-- The guild has a formula of this normal form compiled. -/
def Guild.Compiles (guild : Guild) (key : String) : Prop :=
  guild.config.algorithm = .custom ∧ guild.members ≠ [] ∧
    ∃ source, guild.config.formula? = some source ∧ Text.collapse source = key ∧
      Formula.Compiles .standard source

/-- The guild is rated by no formula, or has no players, or has no formula that compiles. -/
def Guild.Idle (guild : Guild) : Prop :=
  guild.config.algorithm ≠ .custom ∨ guild.members = [] ∨
    ∀ source, guild.config.formula? = some source → ¬ Formula.Compiles .standard source

/-- The normal forms of the formulas that guilds have compiled. -/
def compiledKeys (guilds : List Guild) : Set String := {key | ∃ guild ∈ guilds, guild.Compiles key}

/-- A guild has a normal form compiled if the text that is looked up for its members has it and
compiles. -/
theorem Guild.compiles_iff {key : String} : guild.Compiles key ↔
    ∃ source, guild.source? = some source ∧ Text.collapse source = key ∧
      Formula.Compiles .standard source := by
  rw [Guild.Compiles, Guild.source?, Config.source?]
  by_cases hmembers : guild.members = []
  · simp [hmembers]
  · by_cases hcustom : guild.config.algorithm = .custom
    · simp [hmembers, hcustom]
    · simp [hmembers, hcustom]

/-- A guild without players leaves the cache as it is, and any other one settles it. -/
theorem rateGuild_snd (cache : Cache) (guild : Guild) :
    (rateGuild cache guild).2 =
      if guild.members = [] then cache else cache.settled guild.config := by
  rw [rateGuild]
  dsimp only
  split
  · next h =>
    rw [h]
    rfl
  · next h => exact rateMembers_snd cache guild.config h

/-- **An idle guild leaves the cache as it is.** -/
theorem rateGuild_snd_of_idle (hlimits : cache.limits = .standard) (h : guild.Idle) :
    (rateGuild cache guild).2 = cache := by
  rw [rateGuild_snd]
  split
  · rfl
  · next hmembers =>
    rw [Cache.settled, Config.source?]
    split
    · rfl
    · next source hsource =>
      split at hsource
      · next hcustom =>
        rcases h with hother | hempty | hrejected
        · exact absurd hcustom hother
        · exact absurd hempty hmembers
        · exact Cache.get_snd_of_not_compiles hlimits (hrejected source hsource)
      · cases hsource

/-- The report that guilds are rated onto is no matter for the cache. -/
theorem rateGuilds_snd (report : Report) (cache : Cache) (guilds : List Guild) :
    (rateGuilds report cache guilds).2.2 =
      guilds.foldl (fun cache guild => (rateGuild cache guild).2) cache := by
  induction guilds generalizing report cache with
  | nil => rfl
  | cons guild guilds ih =>
    rw [rateGuilds, List.foldl_cons]
    dsimp only
    rw [ih]

/-- The guilds of a batch pass the cache on from one to the next. -/
theorem run_snd (cache : Cache) (guilds : List Guild) :
    (run cache guilds).2.2 = guilds.foldl (fun cache guild => (rateGuild cache guild).2) cache :=
  rateGuilds_snd .empty cache guilds

/-- A batch that begins with an empty cache compiles under the standard limits to its end. -/
theorem limits_run (guilds : List Guild) :
    (run (.empty .standard) guilds).2.2.limits = .standard :=
  (Cache.kept_limits .standard).run guilds rfl

/-! ### Guilds of which the calls overlap -/

/-- Guilds are rated one after the other, the calls for the players of each overlapping in some way,
and the last cache is what is left. -/
inductive Leaves : Cache → List Guild → Cache → Prop
  | nil {cache : Cache} : Leaves cache [] cache
  | cons {cache last : Cache} {guild : Guild} {guilds : List Guild} {ended : Calls} :
      Run guild.config (.waiting cache guild.members) ended → ended.Finished →
        Leaves ended.cache guilds last → Leaves cache (guild :: guilds) last

/-- When all calls for the players of a guild have ended, the cache is what the guild leaves. -/
theorem cache_of_run {ended : Calls} (hrun : Run guild.config (.waiting cache guild.members) ended)
    (hfinished : ended.Finished) : ended.cache = (rateGuild cache guild).2 := by
  rw [rateGuild_snd]
  split
  · next hmembers =>
    rw [hmembers] at hrun
    rcases hrun.cases_head with rfl | ⟨next, hstep, -⟩
    · rfl
    · generalize hcalls : Calls.waiting cache [] = calls at hstep
      have idle : calls.calls = [] := hcalls ▸ rfl
      cases hstep <;>
        exact absurd idle (List.append_ne_nil_of_right_ne_nil _ (List.cons_ne_nil _ _))
  · next hmembers => exact (Agrees.run hrun).cache_of_finished hmembers hfinished

/-- **Overlapping calls leave what players rated one after the other leave.** -/
theorem leaves_iff : Leaves cache guilds last ↔ last = (run cache guilds).2.2 := by
  rw [run_snd]
  induction guilds generalizing cache with
  | nil =>
    constructor
    · rintro ⟨⟩
      rfl
    · rintro rfl
      exact .nil
  | cons guild guilds ih =>
    rw [List.foldl_cons]
    constructor
    · rintro (_ | ⟨hrun, hfinished, hrest⟩)
      rw [← cache_of_run hrun hfinished]
      exact ih.1 hrest
    · intro h
      obtain ⟨ended, hfinished, hrun⟩ := exists_run_finished guild.config cache []
        (Calls.waiting cache guild.members).calls
      refine .cons hrun hfinished (ih.2 ?_)
      rw [h, cache_of_run hrun hfinished]

/-! ### Counting -/

/-- No normal form is held twice after a batch. -/
theorem nodup_keys_run (guilds : List Guild) : (run (.empty .standard) guilds).2.2.keys.Nodup :=
  Cache.kept_nodup_keys.run guilds List.nodup_nil

/-- After a batch the keys are the normal forms that its guilds have compiled. -/
theorem mem_keys_run {key : String} :
    key ∈ (run (.empty .standard) guilds).2.2.keys ↔ key ∈ compiledKeys guilds := by
  have held : (run (.empty .standard) guilds).2.2.Holds key ↔ _ :=
    Cache.holds_rateGuilds rfl guilds .empty
  have fresh : ¬ (Cache.empty .standard).Holds key := nofun
  rw [← Cache.holds_iff_mem_keys, held, or_iff_right fresh]
  exact exists_congr fun guild => and_congr_right fun _ => Guild.compiles_iff.symm

/-- **A batch compiles as many formulas as there are normal forms.** -/
theorem size_run (guilds : List Guild) :
    (run (.empty .standard) guilds).2.2.size = (compiledKeys guilds).ncard := by
  have same : compiledKeys guilds = (run (.empty .standard) guilds).2.2.keys.toFinset := by
    ext key
    rw [Finset.mem_coe, List.mem_toFinset, mem_keys_run]
  rw [same, Set.ncard_coe_finset, List.toFinset_card_of_nodup (nodup_keys_run guilds), Cache.keys,
    List.length_map]
  rfl

/-- Each guild has one formula at most, so only finitely many are compiled. -/
theorem finite_compiledKeys (guilds : List Guild) : (compiledKeys guilds).Finite := by
  have held : compiledKeys guilds ⊆ {key | key ∈ (run (.empty .standard) guilds).2.2.keys} :=
    fun key hkey => mem_keys_run.2 hkey
  exact (List.finite_toSet _).subset held

/-- The order of the guilds does not matter for what they have compiled. -/
theorem compiledKeys_perm {order : List Guild} (h : order.Perm guilds) :
    compiledKeys order = compiledKeys guilds :=
  Set.ext fun _ => exists_congr fun _ => and_congr_left fun _ => h.mem_iff

/-- The guilds have the same configuration, and if one of them has players, so has the other. -/
def Guild.Alike (guild guild' : Guild) : Prop :=
  guild.config = guild'.config ∧ (guild.members = [] ↔ guild'.members = [])

/-- Which players a guild has, how many and in which order is no matter for the cache. -/
theorem run_snd_of_alike (cache : Cache) {guilds' : List Guild}
    (h : List.Forall₂ Guild.Alike guilds' guilds) :
    (run cache guilds').2.2 = (run cache guilds).2.2 := by
  rw [run_snd, run_snd]
  induction h generalizing cache with
  | nil => rfl
  | @cons guild' guild _ _ halike _ ih =>
    have same : (rateGuild cache guild').2 = (rateGuild cache guild).2 := by
      rw [rateGuild_snd, rateGuild_snd, halike.1]
      exact if_congr halike.2 rfl rfl
    rw [List.foldl_cons, List.foldl_cons, same]
    exact ih _

/-- Without an idle guild a batch leaves the same cache. -/
theorem run_snd_of_idle (before after : List Guild) (h : guild.Idle) :
    (run (.empty .standard) (before ++ guild :: after)).2.2 =
      (run (.empty .standard) (before ++ after)).2.2 := by
  rw [run_snd, run_snd, List.foldl_append, List.foldl_append, List.foldl_cons]
  rw [rateGuild_snd_of_idle ?_ h]
  rw [← run_snd]
  exact limits_run before

/-- **A batch compiles each formula once.**  The cache of a batch that began with an empty one holds
as many formulas as there are normal forms of formulas that guilds have compiled, and no more than
these have ever been compiled successfully.  In particular

* the calls for the players of a guild may overlap in any way, and the cache in the end is the same;
* in another order of the guilds the cache is of the same size;
* with other players, more of them or fewer, as long as there are any, the cache is the same;
* without a guild that is rated by no formula, has no players or has a formula that does not
  compile, the cache is the same. -/
theorem batch_compiles_each_formula_once (guilds : List Guild) :
    let cache := (run (.empty .standard) guilds).2.2
    ((compiledKeys guilds).Finite ∧ cache.size = (compiledKeys guilds).ncard ∧
      cache.nextSerial = cache.size) ∧
    (∀ last, Leaves (.empty .standard) guilds last ↔ last = cache) ∧
    (∀ order : List Guild, order.Perm guilds →
      (run (.empty .standard) order).2.2.size = cache.size) ∧
    (∀ guilds' : List Guild, List.Forall₂ Guild.Alike guilds' guilds →
      (run (.empty .standard) guilds').2.2 = cache) ∧
    ∀ (before after : List Guild) (idle : Guild), guilds = before ++ idle :: after → idle.Idle →
      (run (.empty .standard) (before ++ after)).2.2 = cache := by
  intro cache
  refine ⟨⟨finite_compiledKeys guilds, size_run guilds, ?_⟩, ?_, ?_, ?_, ?_⟩
  · exact Cache.kept_nextSerial_eq_size.run guilds rfl
  · exact fun last => leaves_iff
  · intro order h
    rw [size_run, compiledKeys_perm h, ← size_run]
  · exact fun guilds' h => run_snd_of_alike _ h
  · rintro before after idle rfl hidle
    exact (run_snd_of_idle before after hidle).symm

/-- Two spellings of one formula, the second one under an id that is repeated, a formula that does
not compile and a guild that is rated by the highest peak. -/
def fourGuilds : List Guild :=
  [guildBy "a" "ones", guildBy "b" "ones +", guildBy "a" " ones ",
    ⟨"c", { Config.byPeak with formula := some "twos" }, [⟨"player", .sample⟩]⟩]

/-- The same with twice as many players. -/
def fourLargerGuilds : List Guild :=
  fourGuilds.map fun guild => { guild with members := guild.members ++ guild.members }

/-- The four guilds have one formula compiled, in any order, with any players and also without the
second of them. -/
theorem batch_compiles_each_formula_once_four :
    (compiledKeys fourGuilds).ncard = 1 ∧
    Leaves (.empty .standard) fourGuilds (run (.empty .standard) fourGuilds).2.2 ∧
    (run (.empty .standard) fourGuilds.reverse).2.2.size = 1 ∧
    (run (.empty .standard) fourLargerGuilds).2.2 = (run (.empty .standard) fourGuilds).2.2 ∧
    (run (.empty .standard) (fourGuilds.eraseIdx 1)).2.2 =
      (run (.empty .standard) fourGuilds).2.2 := by
  have held : (run (.empty .standard) fourGuilds).2.2.size = 1 := by decide +kernel
  have rejected : Formula.compile .standard "ones +" =
      .error (.grammar (.unexpected 6 .operand none)) := by cbv
  obtain ⟨⟨-, counted, -⟩, overlapping, reordered, resized, idle⟩ :=
    batch_compiles_each_formula_once fourGuilds
  refine ⟨by rw [← counted, held], (overlapping _).2 rfl, ?_, ?_, ?_⟩
  · rw [reordered _ (List.reverse_perm fourGuilds), held]
  · refine resized fourLargerGuilds (List.forall₂_map_left_iff.2 ?_)
    refine List.forall₂_same.2 fun guild _ => ⟨rfl, ?_⟩
    simp
  · refine idle [_] [_, _] (guildBy "b" "ones +") rfl (.inr (.inr ?_))
    rintro source hsource ⟨formula, hformula⟩
    obtain ⟨hset, -⟩ := Option.filter_eq_some_iff.1 hsource
    obtain rfl := Option.some.inj hset
    rw [rejected] at hformula
    cases hformula

end Batch
end GuildRating
