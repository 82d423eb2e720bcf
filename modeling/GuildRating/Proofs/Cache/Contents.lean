/-
# What a cache comes to hold

A look-up never takes a formula out of a cache.  It adds one exactly when the text compiles under
the limits of the cache, and that under the normal form of the text (`holds_get`).  Rating a player
looks up the formula of the configuration, if the algorithm is a formula (`Config.source?`), so
after a batch a cache holds, besides what it held before, the normal forms of the compiling
formulas of the guilds that have members (`holds_rateGuilds`).  Asked for one text again and again,
a cache gives one answer (`treeOf_get`).
-/

import GuildRating.Proofs.Cache.Transparent

namespace GuildRating

/-- The text that is looked up when a player is rated. -/
def Config.source? (config : Config) : Option String :=
  if config.algorithm = .custom then config.formula? else none

/-- The text that is looked up when the members are rated. -/
def Batch.Guild.source? (guild : Guild) : Option String :=
  if guild.members = [] then none else guild.config.source?

namespace Rating

variable {cache : Formula.Cache} {config : Config} {player : Player} {source : String}

/-- Without a text to look up, a rating does not need the cache. -/
theorem rateWith_of_none (h : config.source? = none) :
    rateWith cache config player = (rate config player, cache) := by
  rw [Config.source?] at h
  split at h
  · next hc => rw [rateWith_missing hc h, rate_missing hc h]
  · next hc => rw [rateWith_builtIn hc, rate_builtIn hc]

/-- Where a formula is looked up, the rating is the one by the tree that the cache answers with. -/
theorem rateWith_of_some (h : config.source? = some source) :
    rateWith cache config player =
      (ofTree (cache.treeOf source) player, (cache.get source).2) := by
  rw [Config.source?] at h
  split at h
  · next hc => exact rateWith_custom hc h
  · cases h

/-- Without a cache the rating is the one by the tree that compiling gives. -/
theorem rate_of_some (h : config.source? = some source) :
    rate config player = ofTree ((Formula.compile .standard source).map Formula.tree) player := by
  rw [Config.source?] at h
  split at h
  · next hc => exact rate_custom hc h
  · cases h

end Rating

namespace Formula

/-- The text is a formula under these limits. -/
def Compiles (limits : Limits) (source : String) : Prop :=
  ∃ formula, compile limits source = .ok formula

namespace Cache

variable {limits : Limits} {cache : Cache} {source key : String}

/-- The cache holds a formula of this normal form. -/
def Holds (cache : Cache) (key : String) : Prop := (cache.find? key).isSome = true

/-- A look-up adds the normal form of a text that compiles, and nothing else. -/
theorem holds_get (h : cache.limits = limits) :
    (cache.get source).2.Holds key ↔
      cache.Holds key ∨ Text.collapse source = key ∧ Compiles limits source := by
  cases hfind : cache.find? (Text.collapse source) with
  | some entry =>
    rw [get_of_find?_eq_some hfind]
    refine ⟨.inl, ?_⟩
    rintro (held | ⟨rfl, -⟩)
    · exact held
    · rw [Holds, hfind]
      rfl
  | none =>
    rw [get_of_find?_eq_none hfind, h]
    cases hcompile : compile limits source with
    | error e =>
      refine ⟨.inl, ?_⟩
      rintro (held | ⟨-, formula, hformula⟩)
      · exact held
      · rw [hcompile] at hformula
        cases hformula
    | ok formula =>
      dsimp only
      rw [Holds, find?_insert]
      by_cases hkey : key = Text.collapse source
      · rw [if_pos hkey]
        exact ⟨fun _ => .inr ⟨hkey.symm, formula, hcompile⟩, fun _ => rfl⟩
      · rw [if_neg hkey]
        refine ⟨.inl, ?_⟩
        rintro (held | ⟨rfl, -⟩)
        · exact held
        · exact absurd rfl hkey

/-- **Asked for a text once more, a cache answers the same and stays as it is.** -/
theorem get_get (cache : Cache) (source : String) :
    (cache.get source).2.get source = cache.get source := by
  cases hfind : cache.find? (Text.collapse source) with
  | some entry =>
    rw [get_of_find?_eq_some hfind]
    exact get_of_find?_eq_some hfind
  | none =>
    cases hcompile : compile cache.limits source with
    | error e =>
      rw [get_of_find?_eq_none hfind, hcompile]
      dsimp only
      rw [get_of_find?_eq_none hfind, hcompile]
    | ok formula =>
      have found : (cache.insert (Text.collapse source) formula).find? (Text.collapse source) =
          some ⟨cache.nextSerial, formula⟩ := by
        rw [find?_insert, if_pos rfl]
      rw [get_of_find?_eq_none hfind, hcompile]
      exact get_of_find?_eq_some found

/-- Asked for a text once more, a cache answers with the same tree. -/
theorem treeOf_get (cache : Cache) (source : String) :
    (cache.get source).2.treeOf source = cache.treeOf source := by
  rw [treeOf, treeOf, get_get]

/-- The limits of a cache never change. -/
theorem kept_limits (limits : Limits) : Kept fun cache => cache.limits = limits :=
  Kept.of_insert fun _ _ _ h _ _ => h

/-- Rating a player adds the normal form of the text that is looked up, if that compiles, and
nothing else. -/
theorem holds_rateWith (h : cache.limits = limits) (config : Config) (player : Player) :
    (Rating.rateWith cache config player).2.Holds key ↔
      cache.Holds key ∨
        ∃ source, config.source? = some source ∧ Text.collapse source = key ∧
          Compiles limits source := by
  cases hsource : config.source? with
  | none =>
    rw [Rating.rateWith_of_none hsource]
    refine ⟨.inl, ?_⟩
    rintro (held | ⟨_, hsome, -⟩)
    · exact held
    · cases hsome
  | some source =>
    rw [Rating.rateWith_of_some hsource, holds_get h]
    simp only [Option.some.injEq, exists_eq_left']

/-- The members of a guild look up one text, if there are any members. -/
theorem holds_rateMembers (h : cache.limits = limits) (config : Config)
    (members : List Batch.Member) :
    (Batch.rateMembers config cache members).2.Holds key ↔
      cache.Holds key ∨ members ≠ [] ∧
        ∃ source, config.source? = some source ∧ Text.collapse source = key ∧
          Compiles limits source := by
  induction members generalizing cache with
  | nil => simp [Batch.rateMembers]
  | cons member members ih =>
    have hlimits := (kept_limits limits).rateWith h config member.player
    rw [Batch.rateMembers]
    dsimp only
    rw [ih hlimits, holds_rateWith h]
    constructor
    · rintro ((held | looked) | ⟨-, looked⟩)
      · exact .inl held
      · exact .inr ⟨List.cons_ne_nil _ _, looked⟩
      · exact .inr ⟨List.cons_ne_nil _ _, looked⟩
    · rintro (held | ⟨-, looked⟩)
      · exact .inl (.inl held)
      · exact .inl (.inr looked)

/-- So does rating a guild that has members. -/
theorem holds_rateGuild (h : cache.limits = limits) (guild : Batch.Guild) :
    (Batch.rateGuild cache guild).2.Holds key ↔
      cache.Holds key ∨
        ∃ source, guild.source? = some source ∧ Text.collapse source = key ∧
          Compiles limits source := by
  rw [Batch.rateGuild]
  dsimp only
  rw [holds_rateMembers h, Batch.Guild.source?]
  by_cases hmembers : guild.members = []
  · simp [hmembers]
  · simp [hmembers]

/-- **What a cache comes to hold.** -/
theorem holds_rateGuilds (h : cache.limits = limits) (guilds : List Batch.Guild)
    (report : Batch.Report) :
    (Batch.rateGuilds report cache guilds).2.2.Holds key ↔
      cache.Holds key ∨
        ∃ guild ∈ guilds, ∃ source, guild.source? = some source ∧ Text.collapse source = key ∧
          Compiles limits source := by
  induction guilds generalizing cache report with
  | nil => simp [Batch.rateGuilds]
  | cons guild guilds ih =>
    have hlimits : (Batch.rateGuild cache guild).2.limits = limits :=
      (kept_limits limits).rateMembers guild.config guild.members h
    rw [Batch.rateGuilds]
    dsimp only
    rw [ih hlimits, holds_rateGuild h]
    simp only [List.mem_cons, exists_eq_or_imp, or_assoc]

end Cache
end Formula
end GuildRating
