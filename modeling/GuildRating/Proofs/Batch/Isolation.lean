/-
# Guilds in one batch

The guilds of a batch share a cache and nothing else.  Within a guild the cache answers the same
text in the same way from the first member to the last (`Cache.treeOf_get`), so a guild is rated by
one tree.  Which tree that is depends on the guilds before it in one case only: its formula is too
long to compile, and one of them has had a shorter spelling of it compiled (`Guild.Lends`).
Otherwise the report of a guild is the one it gets alone (`report_eq_alone_iff`).
-/

import GuildRating.Proofs.Batch.Roster
import GuildRating.Proofs.Cache.Contents

namespace GuildRating
namespace Batch

open Formula (Cache Compiles Limits)

variable {cache : Cache} {config : Config} {source : String} {guild : Guild}

/-- The report of a guild when its players are rated like this. -/
def reportOf (guild : Guild) (rating : Player → Outcome) : GuildReport :=
  ⟨guild.config.algorithm, configError? guild.config,
    .ofList (guild.members.map fun member => (member.id, rating member.player))⟩

/-- Where no formula is looked up, each member is rated as it is alone. -/
theorem rateMembers_of_none (h : config.source? = none) (members : List Member) :
    (rateMembers config cache members).1 =
      members.map fun member => (member.id, Rating.rate config member.player) := by
  induction members generalizing cache with
  | nil => rfl
  | cons member members ih =>
    rw [rateMembers, List.map_cons, Rating.rateWith_of_none h]
    dsimp only
    rw [ih]

/-- Where a formula is looked up, all members are rated by the tree that the cache answers with at
the beginning. -/
theorem rateMembers_of_some (h : config.source? = some source) (members : List Member) :
    (rateMembers config cache members).1 =
      members.map fun member => (member.id, Rating.ofTree (cache.treeOf source) member.player) := by
  induction members generalizing cache with
  | nil => rfl
  | cons member members ih =>
    rw [rateMembers, List.map_cons, Rating.rateWith_of_some h]
    dsimp only
    rw [ih, Cache.treeOf_get]

/-- A guild that has nothing overlooked is rated as without a cache. -/
theorem rateGuild_eq (h : Cache.Coherent .standard cache)
    (ho : ∀ source, guild.source? = some source → ¬ cache.Overlooks source) :
    (rateGuild cache guild).1 = reportOf guild (Rating.rate guild.config) := by
  rw [rateGuild, reportOf]
  dsimp only
  by_cases hmembers : guild.members = []
  · rw [hmembers]
    rfl
  rw [Guild.source?, if_neg hmembers] at ho
  cases hsource : guild.config.source? with
  | none => rw [rateMembers_of_none hsource]
  | some source =>
    have same := h.treeOf_eq (ho source hsource)
    have rated : ∀ player, Rating.rate guild.config player =
        Rating.ofTree (cache.treeOf source) player := by
      intro player
      rw [Rating.rate_of_some hsource, same]
    simp only [rateMembers_of_some hsource, rated]

/-- A guild that has its formula looked up has members. -/
theorem Guild.source?_eq_some (h : guild.source? = some source) :
    guild.members ≠ [] ∧ guild.config.source? = some source := by
  rw [Guild.source?] at h
  split at h
  · cases h
  · next hmembers => exact ⟨hmembers, h⟩

/-- If the look-up answers with a tree, the report is that of ratings by this tree. -/
theorem rateGuild_of_some (h : guild.source? = some source) {tree : Formula.Expr}
    (htree : cache.treeOf source = .ok tree) :
    (rateGuild cache guild).1 = reportOf guild (Rating.ofTree (.ok tree)) := by
  rw [rateGuild, reportOf]
  dsimp only
  rw [rateMembers_of_some (Guild.source?_eq_some h).2, htree]

/-- Reports of the same players differ where no two ratings are equal. -/
theorem reportOf_ne {rating rating' : Player → Outcome} (hmembers : guild.members ≠ [])
    (h : ∀ player player', rating player ≠ rating' player') :
    reportOf guild rating ≠ reportOf guild rating' := by
  intro same
  obtain ⟨member, members, hcons⟩ := List.exists_cons_of_ne_nil hmembers
  have outcome (rating : Player → Outcome) :
      ∃ player, (reportOf guild rating).ratings.get? member.id = some (rating player) := by
    have first : (member.id, rating member.player) ∈
        guild.members.map fun member => (member.id, rating member.player) := by
      rw [hcons]
      exact List.mem_cons_self
    obtain ⟨value, hvalue, hmem⟩ := Roster.exists_get?_ofList first
    obtain ⟨other, -, hother⟩ := List.mem_map.1 hmem
    obtain rfl : rating other.player = value := congrArg Prod.snd hother
    exact ⟨_, hvalue⟩
  obtain ⟨player, hplayer⟩ := outcome rating
  obtain ⟨player', hplayer'⟩ := outcome rating'
  rw [same, hplayer'] at hplayer
  exact h player player' (Option.some.inj hplayer).symm

/-- Guilds that come later leave the report of a guild alone. -/
theorem get?_rateGuilds_of_ne {id : String} (guilds : List Guild) (report : Report)
    (h : ∀ guild ∈ guilds, guild.id ≠ id) :
    (rateGuilds report cache guilds).1.get? id = report.get? id := by
  induction guilds generalizing report cache with
  | nil => rfl
  | cons guild guilds ih =>
    rw [List.forall_mem_cons] at h
    rw [rateGuilds]
    dsimp only
    rw [ih _ h.2, Roster.get?_put, if_neg (Ne.symm h.1)]

/-- Guilds are rated onto what the guilds before them left. -/
theorem rateGuilds_append (report : Report) (before after : List Guild) :
    (rateGuilds report cache (before ++ after)).1 =
      (rateGuilds (rateGuilds report cache before).1 (rateGuilds report cache before).2.2
        after).1 := by
  induction before generalizing report cache with
  | nil => rfl
  | cons guild before ih =>
    rw [List.cons_append, rateGuilds]
    dsimp only
    rw [ih]
    rfl

/-- A guild is rated with the cache that the guilds before it left. -/
theorem get?_run (cache : Cache) (before after : List Guild)
    (h : ∀ later ∈ after, later.id ≠ guild.id) :
    (run cache (before ++ guild :: after)).1.get? guild.id =
      some (rateGuild (run cache before).2.2 guild).1 := by
  rw [run, run]
  dsimp only
  rw [rateGuilds_append, rateGuilds]
  dsimp only
  rw [get?_rateGuilds_of_ne after _ h, Roster.get?_put, if_pos rfl]

/-- The guild has a formula that is too long to compile, and the lender has a shorter spelling of it
compiled. -/
def Guild.Lends (lender guild : Guild) : Prop :=
  ∃ source text, guild.source? = some source ∧ Limits.standard.maxLength < source.length ∧
    lender.source? = some text ∧ Text.collapse text = Text.collapse source ∧
    Compiles .standard text

/-- What the guilds before leave in the cache was compiled under the standard limits. -/
theorem coherent_run (before : List Guild) :
    Cache.Coherent .standard (run (.empty .standard) before).2.2 :=
  (Cache.kept_coherent .standard).run before (Cache.coherent_empty .standard)

/-- A text is overlooked for the guild exactly when a guild before it lends it. -/
theorem overlooks_run_iff {before : List Guild} (h : guild.source? = some source) :
    (run (.empty .standard) before).2.2.Overlooks source ↔
      ∃ lender ∈ before, lender.Lends guild := by
  have held : (run (.empty .standard) before).2.2.Holds (Text.collapse source) ↔ _ :=
    Cache.holds_rateGuilds rfl before .empty
  have fresh : ¬ (Cache.empty .standard).Holds (Text.collapse source) := nofun
  rw [Cache.Overlooks, (coherent_run before).limits_eq, ← Cache.Holds, held]
  constructor
  · rintro ⟨hlong, hempty | ⟨lender, hlender, text, htext, hcollapse, hcompiles⟩⟩
    · exact absurd hempty fresh
    · exact ⟨lender, hlender, source, text, h, hlong, htext, hcollapse, hcompiles⟩
  · rintro ⟨lender, hlender, source', text, hsource, hlong, htext, hcollapse, hcompiles⟩
    obtain rfl : source = source' := Option.some.inj (h.symm.trans hsource)
    exact ⟨hlong, .inr ⟨lender, hlender, text, htext, hcollapse, hcompiles⟩⟩

/-- A guild that is lent nothing is rated as without a cache. -/
theorem get?_run_of_not_lends (before after : List Guild)
    (h : ∀ later ∈ after, later.id ≠ guild.id) (hlends : ¬ ∃ lender ∈ before, lender.Lends guild) :
    (run (.empty .standard) (before ++ guild :: after)).1.get? guild.id =
      some (reportOf guild (Rating.rate guild.config)) := by
  rw [get?_run _ _ _ h, rateGuild_eq (coherent_run before)]
  intro source hsource
  rwa [overlooks_run_iff hsource]

/-- A guild that is lent its formula is rated by the tree of the collapsed formula. -/
theorem get?_run_of_lends (before after : List Guild)
    (h : ∀ later ∈ after, later.id ≠ guild.id) (hlends : ∃ lender ∈ before, lender.Lends guild) :
    ∃ source tree, guild.source? = some source ∧ Limits.standard.maxLength < source.length ∧
      (Formula.compile .standard (Text.collapse source)).map Formula.tree = .ok tree ∧
      (run (.empty .standard) (before ++ guild :: after)).1.get? guild.id =
        some (reportOf guild (Rating.ofTree (.ok tree))) := by
  obtain ⟨lender, hlender, source, text, hsource, hlong, rest⟩ := hlends
  have overlooked := (overlooks_run_iff hsource).2
    ⟨lender, hlender, source, text, hsource, hlong, rest⟩
  obtain ⟨-, tree, htree, hcompile⟩ := (coherent_run before).treeOf_of_overlooks overlooked
  refine ⟨source, tree, hsource, hlong, hcompile, ?_⟩
  rw [get?_run _ _ _ h, rateGuild_of_some hsource htree]

/-- A guild whose formula is too long has no rating without a cache. -/
theorem rate_of_long (h : guild.source? = some source)
    (hlong : Limits.standard.maxLength < source.length) (player : Player) :
    Rating.rate guild.config player =
      .error (.formula (.scan (.tooLong source.length Limits.standard.maxLength))) := by
  rw [Rating.rate_of_some (Guild.source?_eq_some h).2, Cache.compile_of_lt hlong]
  rfl

/-- **Guilds are isolated but for formulas that are too long.**  Alone in a batch a guild is rated
as without a cache.  Among others, of which no later one has its id, it gets the same report exactly
when no earlier guild lends it its formula; otherwise, instead of refusing the formula as too long
for every player, the report rates them by the tree of the collapsed formula.  So between two
batches the report of a guild never changes if its formula keeps within the limit of length. -/
theorem report_eq_alone_iff (guild : Guild) (before after : List Guild)
    (h : ∀ later ∈ after, later.id ≠ guild.id) :
    (run (.empty .standard) [guild]).1.get? guild.id =
      some (reportOf guild (Rating.rate guild.config)) ∧
    ((run (.empty .standard) (before ++ guild :: after)).1.get? guild.id =
        (run (.empty .standard) [guild]).1.get? guild.id ↔
      ¬ ∃ lender ∈ before, lender.Lends guild) ∧
    ((∃ lender ∈ before, lender.Lends guild) →
      ∃ source tree, guild.source? = some source ∧ Limits.standard.maxLength < source.length ∧
        (∀ player, Rating.rate guild.config player =
          .error (.formula (.scan (.tooLong source.length Limits.standard.maxLength)))) ∧
        (Formula.compile .standard (Text.collapse source)).map Formula.tree = .ok tree ∧
        (run (.empty .standard) (before ++ guild :: after)).1.get? guild.id =
          some (reportOf guild (Rating.ofTree (.ok tree)))) ∧
    ((∀ source, guild.source? = some source → source.length ≤ Limits.standard.maxLength) →
      ∀ before' after' : List Guild, (∀ later ∈ after', later.id ≠ guild.id) →
        (run (.empty .standard) (before ++ guild :: after)).1.get? guild.id =
          (run (.empty .standard) (before' ++ guild :: after')).1.get? guild.id) := by
  have alone : (run (.empty .standard) [guild]).1.get? guild.id =
      some (reportOf guild (Rating.rate guild.config)) :=
    get?_run_of_not_lends [] [] (List.forall_mem_nil _) (by simp)
  have short (hshort : ∀ source, guild.source? = some source →
      source.length ≤ Limits.standard.maxLength) (before : List Guild) :
      ¬ ∃ lender ∈ before, lender.Lends guild := by
    rintro ⟨lender, -, source, -, hsource, hlong, -⟩
    exact absurd (hshort source hsource) (Nat.not_le.2 hlong)
  refine ⟨alone, ⟨?_, ?_⟩, ?_, ?_⟩
  · intro same hlends
    obtain ⟨source, tree, hsource, hlong, -, shared⟩ := get?_run_of_lends before after h hlends
    rw [shared, alone] at same
    refine reportOf_ne (Guild.source?_eq_some hsource).1 ?_ (Option.some.inj same)
    intro player player'
    rw [rate_of_long hsource hlong player']
    exact Cache.ofTree_ok_ne tree player _
  · intro hlends
    rw [get?_run_of_not_lends before after h hlends, alone]
  · intro hlends
    obtain ⟨source, tree, hsource, hlong, hcompile, shared⟩ :=
      get?_run_of_lends before after h hlends
    exact ⟨source, tree, hsource, hlong, rate_of_long hsource hlong, hcompile, shared⟩
  · intro hshort before' after' h'
    rw [get?_run_of_not_lends before after h (short hshort before),
      get?_run_of_not_lends before' after' h' (short hshort before')]

/-- `ones`, followed by as many spaces as a formula may have characters. -/
def paddedOnes : String := "ones" ++ String.ofList (List.replicate 2000 ' ')

/-- A guild with the sample player, rated by the formula. -/
def guildBy (id source : String) : Guild :=
  ⟨id, .byFormula source, [⟨"player", .sample⟩]⟩

/-- The text of such a guild is looked up, unless it is blank. -/
theorem source?_guildBy {id source : String} (h : Text.allBlank source = false) :
    (guildBy id source).source? = some source := by
  have members : (guildBy id source).members ≠ [] := List.cons_ne_nil _ _
  have custom : (guildBy id source).config.algorithm = .custom := rfl
  rw [Guild.source?, if_neg members, Config.source?, if_pos custom, Config.formula?]
  exact Option.filter_some_pos (by rw [h]; rfl)

/-- A guild with `ones` lends to a guild with the padded spelling, which is too long. -/
theorem lends_paddedOnes : (guildBy "first" "ones").Lends (guildBy "second" paddedOnes) := by
  have visible : Text.allBlank paddedOnes = false := by
    rw [Text.allBlank, paddedOnes, String.toList_append, List.all_append]
    rfl
  have long : Limits.standard.maxLength < paddedOnes.length := by
    have spaces : (String.ofList (List.replicate 2000 ' ')).length = 2000 := by
      rw [String.length_ofList, List.length_replicate]
    rw [paddedOnes, String.length_append, spaces]
    decide
  have collapsed : Text.collapse paddedOnes = Text.collapse "ones" := by
    refine Text.collapse_append_of_blank "ones" fun c hc => ?_
    rw [List.eq_of_mem_replicate hc]
    decide
  exact ⟨paddedOnes, "ones", source?_guildBy visible, long, source?_guildBy (by decide),
    collapsed.symm, ⟨"ones", "ones", .var "ones"⟩, by cbv⟩

/-- After a guild rated by `ones` a guild with the padded formula gets another report than alone;
before that guild it gets the same. -/
theorem report_of_paddedOnes :
    (run (.empty .standard) [guildBy "first" "ones", guildBy "second" paddedOnes]).1.get? "second" ≠
        (run (.empty .standard) [guildBy "second" paddedOnes]).1.get? "second" ∧
    (run (.empty .standard) [guildBy "second" paddedOnes, guildBy "first" "ones"]).1.get? "second" =
        (run (.empty .standard) [guildBy "second" paddedOnes]).1.get? "second" := by
  have id : (guildBy "second" paddedOnes).id = "second" := rfl
  have after := (report_eq_alone_iff (guildBy "second" paddedOnes) [guildBy "first" "ones"] []
    (List.forall_mem_nil _)).2.1
  have before := (report_eq_alone_iff (guildBy "second" paddedOnes) [] [guildBy "first" "ones"]
    (List.forall_mem_singleton.2 (by rw [id]; decide))).2.1
  rw [List.singleton_append, id] at after
  rw [List.nil_append, id] at before
  constructor
  · intro same
    exact after.1 same ⟨_, List.mem_cons_self, lends_paddedOnes⟩
  · refine before.2 ?_
    rintro ⟨lender, hlender, -⟩
    cases hlender

end Batch
end GuildRating
