/-
# The order in which players are rated

All players of a guild are rated by one text, so the first of them settles what the cache holds for
the others (`Cache.settled`): it either adds the formula, which the next ones find, or it changes
nothing, and neither will they.  So players can be rated in any order.

The calls for the players may also overlap.  A call looks for the formula first; only if it is not
held, the call takes the cache for itself, looks again and compiles.  Other calls come in between,
so several of them may miss a formula that one of them then adds.  What each call keeps (`Agrees`)
does not depend on who comes first, so all runs of overlapping calls end alike
(`rating_order_never_matters`).
-/

import Mathlib.Logic.Relation
import GuildRating.Proofs.Batch.Report

namespace GuildRating

/-- The cache after the formula of the configuration, if there is one, was looked up. -/
def Formula.Cache.settled (cache : Formula.Cache) (config : Config) : Formula.Cache :=
  match config.source? with
  | none => cache
  | some source => (cache.get source).2

namespace Rating

variable {cache : Formula.Cache} {config : Config}

/-- A rating leaves the same cache for every player. -/
theorem rateWith_snd (cache : Formula.Cache) (config : Config) (player : Player) :
    (rateWith cache config player).2 = cache.settled config := by
  rw [Formula.Cache.settled]
  cases h : config.source? with
  | none => rw [rateWith_of_none h]
  | some source => rw [rateWith_of_some h]

/-- Once the formula was looked up, a rating is what it was before and leaves the cache as it is. -/
theorem rateWith_settled (cache : Formula.Cache) (config : Config) (player : Player) :
    rateWith (cache.settled config) config player =
      ((rateWith cache config player).1, cache.settled config) := by
  rw [Formula.Cache.settled]
  cases h : config.source? with
  | none => rw [rateWith_of_none h]
  | some source =>
    rw [rateWith_of_some h, rateWith_of_some h, Formula.Cache.treeOf_get, Formula.Cache.get_get]

end Rating

namespace Batch

open Formula (Cache)

variable {cache : Cache} {config : Config}

/-- Once the cache is settled, players leave it as it is. -/
theorem rateMembers_settled (cache : Cache) (config : Config) (members : List Member) :
    (rateMembers config (cache.settled config) members).2 = cache.settled config := by
  induction members with
  | nil => rfl
  | cons member members ih =>
    rw [rateMembers, Rating.rateWith_settled]
    exact ih

/-- Whoever is rated and in which order, the cache afterwards is the same. -/
theorem rateMembers_snd (cache : Cache) (config : Config) {members : List Member}
    (h : members ≠ []) : (rateMembers config cache members).2 = cache.settled config := by
  obtain ⟨member, members, rfl⟩ := List.exists_cons_of_ne_nil h
  rw [rateMembers]
  dsimp only
  rw [Rating.rateWith_snd, rateMembers_settled]

/-! ### Calls that overlap -/

/-- How far the call for a player has come. -/
inductive Progress where
  | waiting
  /-- The formula was not held when it was looked for. -/
  | missed
  | rated (outcome : Outcome)

/-- The call for one player. -/
structure Call where
  member : Member
  progress : Progress

/-- Calls for players of one guild, and the cache they share. -/
structure Calls where
  cache : Cache
  calls : List Call

/-- The calls before any of them has begun. -/
def Calls.waiting (cache : Cache) (members : List Member) : Calls :=
  ⟨cache, members.map fun member => ⟨member, .waiting⟩⟩

/-- Every call has its outcome. -/
def Calls.Finished (calls : Calls) : Prop :=
  ∀ call ∈ calls.calls, ∃ outcome, call.progress = .rated outcome

/-- What a call comes to that only looks whether the formula is held. -/
def look (cache : Cache) (config : Config) (player : Player) : Progress :=
  match config.source? with
  | none => .rated (Rating.rate config player)
  | some source =>
    match cache.find? (Text.collapse source) with
    | some entry => .rated (Rating.ofFormula entry.formula player)
    | none => .missed

/-- One call goes on, while the others stay where they are.  A call that missed the formula has the
cache for itself while it looks again and compiles, as `Rating.rateWith` does. -/
inductive Step (config : Config) : Calls → Calls → Prop
  | look {cache : Cache} {before after : List Call} {member : Member} :
      Step config ⟨cache, before ++ ⟨member, .waiting⟩ :: after⟩
        ⟨cache, before ++ ⟨member, look cache config member.player⟩ :: after⟩
  | compile {cache : Cache} {before after : List Call} {member : Member} :
      Step config ⟨cache, before ++ ⟨member, .missed⟩ :: after⟩
        ⟨(Rating.rateWith cache config member.player).2,
          before ++ ⟨member, .rated (Rating.rateWith cache config member.player).1⟩ :: after⟩

/-- Steps of the calls in any order. -/
abbrev Run (config : Config) : Calls → Calls → Prop := Relation.ReflTransGen (Step config)

/-- A look that finds the formula gives the rating, and the cache needs nothing more. -/
theorem look_spec (cache : Cache) (config : Config) (player : Player) :
    look cache config player = .missed ∨
      look cache config player = .rated (Rating.rateWith cache config player).1 ∧
        cache.settled config = cache := by
  rw [look, Cache.settled]
  cases h : config.source? with
  | none => exact .inr ⟨by rw [Rating.rateWith_of_none h], rfl⟩
  | some source =>
    dsimp only
    cases hfind : cache.find? (Text.collapse source) with
    | none => exact .inl rfl
    | some entry =>
      refine .inr ⟨?_, ?_⟩
      · rw [Rating.rateWith_of_some h, Cache.treeOf, Cache.get_of_find?_eq_some hfind]
        rfl
      · rw [Cache.get_of_find?_eq_some hfind]

/-- The call agrees with one made alone with the cache at the start, and if it has its outcome, the
formula has been looked up. -/
def Call.Agrees (start : Cache) (config : Config) (now : Cache) (call : Call) : Prop :=
  ∀ outcome, call.progress = .rated outcome →
    outcome = (Rating.rateWith start config call.member.player).1 ∧ now = start.settled config

/-- What the calls keep, whoever comes first. -/
structure Agrees (start : Cache) (config : Config) (members : List Member) (calls : Calls) :
    Prop where
  cache_eq : calls.cache = start ∨ calls.cache = start.settled config
  members_eq : calls.calls.map Call.member = members
  outcomes : ∀ call ∈ calls.calls, call.Agrees start config calls.cache

variable {start : Cache} {members : List Member} {calls calls' : Calls}

/-- Either cache gives the rating of the first and comes to the second. -/
theorem rateWith_of_cache_eq {now : Cache} (h : now = start ∨ now = start.settled config)
    (player : Player) :
    Rating.rateWith now config player =
      ((Rating.rateWith start config player).1, start.settled config) := by
  rcases h with rfl | rfl
  · rw [← Rating.rateWith_snd now config player]
  · exact Rating.rateWith_settled start config player

/-- Settling a cache again changes nothing. -/
theorem settled_of_cache_eq {now : Cache} (h : now = start ∨ now = start.settled config) :
    now.settled config = start.settled config := by
  rw [← Rating.rateWith_snd now config .blank, rateWith_of_cache_eq h]

/-- **One step of the calls keeps this.** -/
theorem Agrees.step (h : Agrees start config members calls) (hstep : Step config calls calls') :
    Agrees start config members calls' := by
  obtain ⟨hcache, hmembers, houtcomes⟩ := h
  cases hstep with
  | @look now before after member =>
    refine ⟨hcache, by simpa using hmembers, ?_⟩
    rw [List.forall_mem_append, List.forall_mem_cons] at houtcomes ⊢
    refine ⟨houtcomes.1, fun outcome hrated => ?_, houtcomes.2.2⟩
    dsimp only at hrated hcache
    rcases look_spec now config member.player with hmissed | ⟨hfound, hsettled⟩
    · rw [hmissed] at hrated
      cases hrated
    · rw [hfound, rateWith_of_cache_eq hcache] at hrated
      cases hrated
      rw [settled_of_cache_eq hcache] at hsettled
      exact ⟨rfl, hsettled.symm⟩
  | @compile now before after member =>
    dsimp only at hcache
    rw [rateWith_of_cache_eq hcache]
    refine ⟨.inr rfl, by simpa using hmembers, ?_⟩
    -- the formula has been looked up now, which is what the other calls with an outcome ask for
    have others (call : Call) (hcall : call.Agrees start config now) :
        call.Agrees start config (start.settled config) :=
      fun outcome hrated => ⟨(hcall outcome hrated).1, rfl⟩
    rw [List.forall_mem_append, List.forall_mem_cons] at houtcomes ⊢
    refine ⟨fun call hcall => others call (houtcomes.1 call hcall), ?_,
      fun call hcall => others call (houtcomes.2.2 call hcall)⟩
    intro outcome hrated
    cases hrated
    exact ⟨rfl, rfl⟩

/-- Calls that have not begun agree with calls made alone. -/
theorem agrees_waiting (start : Cache) (config : Config) (members : List Member) :
    Agrees start config members (.waiting start members) := by
  refine ⟨.inl rfl, ?_, ?_⟩
  · rw [Calls.waiting, List.map_map]
    exact List.map_id members
  · intro call hcall outcome hrated
    obtain ⟨member, -, rfl⟩ := List.mem_map.1 hcall
    cases hrated

/-- **Every run of the calls keeps this.** -/
theorem Agrees.run (hrun : Run config (.waiting start members) calls) :
    Agrees start config members calls := by
  induction hrun with
  | refl => exact agrees_waiting start config members
  | tail _ hstep ih => exact ih.step hstep

/-- When all calls have their outcomes, these are the ratings with the cache at the start. -/
theorem Agrees.finished (h : Agrees start config members calls) (hfinished : calls.Finished) :
    calls.calls = members.map fun member =>
      ⟨member, .rated (Rating.rateWith start config member.player).1⟩ := by
  rw [← h.members_eq, List.map_map]
  refine (List.map_id _).symm.trans (List.map_congr_left fun call hcall => ?_)
  obtain ⟨outcome, hrated⟩ := hfinished call hcall
  obtain ⟨rfl, -⟩ := h.outcomes call hcall outcome hrated
  obtain ⟨member, progress⟩ := call
  dsimp only at hrated
  subst hrated
  rfl

/-- A call that has not ended can go on to its outcome. -/
theorem exists_run_call (config : Config) (cache : Cache) (before after : List Call) (call : Call) :
    ∃ cache' outcome, Run config ⟨cache, before ++ call :: after⟩
      ⟨cache', before ++ ⟨call.member, .rated outcome⟩ :: after⟩ := by
  have missed (member : Member) : ∃ cache' outcome,
      Run config ⟨cache, before ++ ⟨member, .missed⟩ :: after⟩
        ⟨cache', before ++ ⟨member, .rated outcome⟩ :: after⟩ := ⟨_, _, .single .compile⟩
  obtain ⟨member, progress⟩ := call
  cases progress with
  | waiting =>
    have looked : Run config ⟨cache, before ++ ⟨member, .waiting⟩ :: after⟩ _ := .single .look
    rcases look_spec cache config member.player with h | ⟨h, -⟩
    · rw [h] at looked
      obtain ⟨cache', outcome, compiled⟩ := missed member
      exact ⟨cache', outcome, looked.trans compiled⟩
    · rw [h] at looked
      exact ⟨_, _, looked⟩
  | missed => exact missed member
  | rated outcome => exact ⟨cache, outcome, .refl⟩

/-- Calls that stand behind others can go on, one after the other, until all have outcomes. -/
theorem exists_run_finished (config : Config) (cache : Cache) (before rest : List Call) :
    ∃ ended : Calls, ended.Finished ∧
      Run config ⟨cache, before ++ rest⟩ ⟨ended.cache, before ++ ended.calls⟩ := by
  induction rest generalizing cache before with
  | nil => exact ⟨⟨cache, []⟩, List.forall_mem_nil _, .refl⟩
  | cons call rest ih =>
    obtain ⟨cache', outcome, hcall⟩ := exists_run_call config cache before rest call
    obtain ⟨ended, hfinished, hrest⟩ := ih cache' (before ++ [⟨call.member, .rated outcome⟩])
    rw [List.append_assoc, List.append_assoc] at hrest
    exact ⟨⟨ended.cache, ⟨call.member, .rated outcome⟩ :: ended.calls⟩,
      List.forall_mem_cons.2 ⟨⟨outcome, rfl⟩, hfinished⟩, hcall.trans hrest⟩

/-- When there were calls and all have ended, the formula has been looked up. -/
theorem Agrees.cache_of_finished (h : Agrees start config members calls) (hne : members ≠ [])
    (hfinished : calls.Finished) : calls.cache = start.settled config := by
  rw [← h.members_eq, ne_eq, List.map_eq_nil_iff] at hne
  obtain ⟨call, rest, hcalls⟩ := List.exists_cons_of_ne_nil hne
  have hcall : call ∈ calls.calls := hcalls ▸ List.mem_cons_self
  obtain ⟨outcome, hrated⟩ := hfinished call hcall
  exact (h.outcomes call hcall outcome hrated).2

/-- **The order in which players are rated never matters.**  Whatever the cache holds at the start
and whatever the configuration is

* in every order of the players, one after the other, each of them gets the outcome of being rated
  alone with the cache at the start, and unless there are no players the cache in the end is what
  any one of them alone leaves;
* the same is true of calls that overlap in any way: however far they have come they can be brought
  to an end, and whenever all have ended they have these outcomes and leave this cache. -/
theorem rating_order_never_matters (start : Cache) (config : Config) (members : List Member) :
    (∀ order : List Member, order.Perm members →
      (rateMembers config start order).1 =
        order.map (fun member => (member.id, (Rating.rateWith start config member.player).1)) ∧
      ∀ member ∈ members, (rateMembers config start order).2 =
        (Rating.rateWith start config member.player).2) ∧
    (∀ calls, Run config (.waiting start members) calls →
      (∃ ended, Run config calls ended ∧ ended.Finished) ∧
      (calls.Finished →
        calls.calls = members.map (fun member =>
          ⟨member, .rated (Rating.rateWith start config member.player).1⟩) ∧
        ∀ member ∈ members, calls.cache = (Rating.rateWith start config member.player).2)) := by
  constructor
  · intro order horder
    refine ⟨rateMembers_eq start config order, fun member hmember => ?_⟩
    have hne : order ≠ [] := List.ne_nil_of_mem (horder.mem_iff.2 hmember)
    rw [rateMembers_snd start config hne, Rating.rateWith_snd]
  · intro calls hrun
    have hagrees := Agrees.run hrun
    constructor
    · obtain ⟨ended, hfinished, hrest⟩ := exists_run_finished config calls.cache [] calls.calls
      exact ⟨ended, hrest, hfinished⟩
    · intro hfinished
      refine ⟨hagrees.finished hfinished, fun member hmember => ?_⟩
      rw [Rating.rateWith_snd]
      exact hagrees.cache_of_finished (List.ne_nil_of_mem hmember) hfinished

/-- A configuration that divides a rating by a number of games. -/
def perGame : Config := .byFormula "ones / twosGames"

/-- Two players, of which the second has played no games. -/
def twoMembers : List Member := [⟨"player", .sample⟩, ⟨"other", .blank⟩]

/-- The calls for both after they have missed the formula and the second has compiled it. -/
def bothMissed : Calls :=
  ⟨(Rating.rateWith (.empty .standard) perGame .blank).2,
    [⟨⟨"player", .sample⟩, .missed⟩,
      ⟨⟨"other", .blank⟩, .rated (Rating.rateWith (.empty .standard) perGame .blank).1⟩]⟩

/-- In either order the first player is rated, the second one fails to divide by zero, and the cache
holds the formula once.  When both calls have missed it and the second one has added it, the first
one still ends with its rating and leaves that cache. -/
theorem rating_order_never_matters_perGame :
    (rateMembers perGame (.empty .standard) twoMembers.reverse).1 =
      [("other", .error (.formula (.eval .divisionByZero))), ("player", .ok (.ofNat 5))] ∧
    (rateMembers perGame (.empty .standard) twoMembers.reverse).2 =
      (rateMembers perGame (.empty .standard) twoMembers).2 ∧
    (rateMembers perGame (.empty .standard) twoMembers).2.size = 1 ∧
    Run perGame (.waiting (.empty .standard) twoMembers) bothMissed ∧
    ∃ ended, Run perGame bothMissed ended ∧
      ended.calls = [⟨⟨"player", .sample⟩, .rated (.ok (.ofNat 5))⟩,
        ⟨⟨"other", .blank⟩, .rated (.error (.formula (.eval .divisionByZero)))⟩] ∧
      ended.cache = (rateMembers perGame (.empty .standard) twoMembers).2 := by
  have source : perGame.source? = some "ones / twosGames" := rfl
  have tree : (Cache.empty .standard).treeOf "ones / twosGames" =
      .ok (.binary .div (.var "ones") (.var "twosGames")) := by cbv
  have held : ((Cache.empty .standard).get "ones / twosGames").2.size = 1 := by cbv
  have rated (player : Player) : (Rating.rateWith (.empty .standard) perGame player).1 =
      Rating.ofTree (.ok (.binary .div (.var "ones") (.var "twosGames"))) player := by
    rw [Rating.rateWith_of_some source, tree]
  have player : (Rating.rateWith (.empty .standard) perGame .sample).1 = .ok (.ofNat 5) := by
    rw [rated]
    decide +kernel
  have other : (Rating.rateWith (.empty .standard) perGame .blank).1 =
      .error (.formula (.eval .divisionByZero)) := by
    rw [rated]
    decide +kernel
  have size : (Rating.rateWith (.empty .standard) perGame .blank).2.size = 1 := by
    rw [Rating.rateWith_of_some source]
    exact held
  have overlapping : Run perGame (.waiting (.empty .standard) twoMembers) bothMissed := by
    let first : Member := ⟨"player", .sample⟩
    let second : Member := ⟨"other", .blank⟩
    have looked₁ : Step perGame (.waiting (.empty .standard) twoMembers)
        ⟨.empty .standard, [⟨first, .missed⟩, ⟨second, .waiting⟩]⟩ :=
      @Step.look _ _ [] [⟨second, .waiting⟩] first
    have looked₂ : Step perGame ⟨.empty .standard, [⟨first, .missed⟩, ⟨second, .waiting⟩]⟩
        ⟨.empty .standard, [⟨first, .missed⟩, ⟨second, .missed⟩]⟩ :=
      @Step.look _ _ [⟨first, .missed⟩] [] second
    have compiled : Step perGame ⟨.empty .standard, [⟨first, .missed⟩, ⟨second, .missed⟩]⟩
        bothMissed :=
      @Step.compile _ _ [⟨first, .missed⟩] [] second
    exact ((Relation.ReflTransGen.single looked₁).tail looked₂).tail compiled
  have blank : ⟨"other", .blank⟩ ∈ twoMembers := List.mem_cons_of_mem _ List.mem_cons_self
  obtain ⟨orders, runs⟩ := rating_order_never_matters (.empty .standard) perGame twoMembers
  obtain ⟨reversed, left⟩ := orders twoMembers.reverse (List.reverse_perm twoMembers)
  obtain ⟨-, left'⟩ := orders twoMembers (.refl twoMembers)
  obtain ⟨⟨ended, hrun, hfinished⟩, -⟩ := runs bothMissed overlapping
  obtain ⟨hcalls, hcache⟩ := (runs ended (overlapping.trans hrun)).2 hfinished
  refine ⟨?_, ?_, ?_, overlapping, ended, hrun, ?_, ?_⟩
  · rw [reversed, twoMembers, List.reverse_cons, List.reverse_singleton, List.singleton_append,
      List.map_cons, List.map_singleton, player, other]
  · rw [left _ blank, left' _ blank]
  · rw [left' _ blank, size]
  · rw [hcalls, twoMembers, List.map_cons, List.map_singleton, player, other]
  · rw [hcache _ blank, left' _ blank]

end Batch
end GuildRating
