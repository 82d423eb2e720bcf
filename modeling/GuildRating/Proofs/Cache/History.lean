/-
# A cache and its log

After every history a cache is what the log of its look-ups makes it (`Recorded`).  It holds the
normal forms of the hits since the last clearing, each with the formula that the first of these hits
compiled, and all later hits got that formula (`Mirrors`).  Serial numbers tell apart the formulas
that were handed out, before and after a clearing (`Numbered`).  One look-up keeps both
(`Recorded.get`): either the formula is there, and was handed out before, or it is compiled and gets
a new number, or nothing happens.
-/

import GuildRating.Proofs.Batch.Roster
import GuildRating.Proofs.Cache.Log

namespace GuildRating
namespace Formula
namespace Cache

variable {limits : Limits} {cache : Cache} {log : Log} {source : String}

namespace Log

/-- Further hits add their normal forms. -/
theorem keys_add (log : Log) (hits : List Hit) :
    (log.add hits).keys = log.keys ++ hits.map Hit.key :=
  List.map_append

/-- Further hits add the formulas that they got. -/
theorem entries_add (log : Log) (hits : List Hit) :
    (log.add hits).entries = log.entries ++ hits.map Hit.entry := by
  simp [entries, stretches, add]

theorem add_nil (log : Log) : log.add [] = log := by
  rw [add, List.append_nil]

/-- Hits can be added in two goes. -/
theorem add_add (log : Log) (first later : List Hit) :
    (log.add first).add later = log.add (first ++ later) := by
  rw [add, add, add, List.append_assoc]

/-- The formulas of earlier stretches were handed out. -/
theorem entries_past {stretch : List Hit} (hstretch : stretch ∈ log.past) {hit : Hit}
    (hhit : hit ∈ stretch) : hit.entry ∈ log.entries :=
  List.mem_map_of_mem (List.mem_flatten.2 ⟨stretch, List.mem_append_left _ hstretch, hhit⟩)

/-- The formulas of the present stretch were handed out. -/
theorem entries_recent {hit : Hit} (hhit : hit ∈ log.recent) : hit.entry ∈ log.entries :=
  List.mem_map_of_mem
    (List.mem_flatten.2 ⟨log.recent, List.mem_append_right _ List.mem_cons_self, hhit⟩)

end Log

/-- The first hit of a normal form. -/
def first? (stretch : List Hit) (key : String) : Option Hit :=
  stretch.find? fun hit => hit.key = key

/-- All hits of a normal form got one formula, which the first of them compiled from its spelling.
-/
def Shares (limits : Limits) (stretch : List Hit) : Prop :=
  ∀ hit ∈ stretch, ∃ first, first? stretch hit.key = some first ∧ hit.entry = first.entry ∧
    first.entry.formula.source = first.source ∧
    compile limits first.source = .ok first.entry.formula

/-- The first hit of a normal form is a hit, and has that normal form. -/
theorem first?_eq_some {stretch : List Hit} {key : String} {first : Hit}
    (h : first? stretch key = some first) : first ∈ stretch ∧ first.key = key := by
  rw [first?] at h
  have sameKey := List.find?_some h
  rw [decide_eq_true_eq] at sameKey
  exact ⟨List.mem_of_find?_eq_some h, sameKey⟩

/-- A later hit does not change which one is the first. -/
theorem first?_concat_of_some {stretch : List Hit} {key : String} {first : Hit}
    (h : first? stretch key = some first) (hit : Hit) :
    first? (stretch ++ [hit]) key = some first := by
  rw [first?] at h
  rw [first?, List.find?_append, h, Option.some_or]

/-- A hit of a new normal form is its first. -/
theorem first?_concat_of_ne {stretch : List Hit} {hit : Hit}
    (h : ∀ other ∈ stretch, other.key ≠ hit.key) :
    first? (stretch ++ [hit]) hit.key = some hit := by
  have absent : stretch.find? (fun other => other.key = hit.key) = none :=
    List.find?_eq_none.2 fun other hother => by
      rw [decide_eq_true_eq]
      exact h other hother
  rw [first?, List.find?_append, absent, Option.none_or, List.find?_singleton, decide_eq_true rfl]
  rfl

/-- The cache holds the formulas of the present stretch. -/
structure Mirrors (limits : Limits) (cache : Cache) (log : Log) : Prop where
  coherent : Coherent limits cache
  /-- No entry hides another one. -/
  listed : ∀ key entry, (key, entry) ∈ cache.entries → cache.find? key = some entry
  keys : cache.entries.map Prod.fst = log.keys.eraseDups.reverse
  found : ∀ hit ∈ log.recent, cache.find? hit.key = some hit.entry
  compiled : ∀ key entry, cache.find? key = some entry →
    ∃ first, first? log.recent key = some first ∧ entry = first.entry ∧
      first.entry.formula.source = first.source

/-- Serial numbers tell apart what was handed out, and those of the present stretch are greater. -/
structure Numbered (cache : Cache) (log : Log) : Prop where
  below : ∀ entry ∈ log.entries, entry.serial < cache.nextSerial
  told : ∀ entry ∈ log.entries, ∀ entry' ∈ log.entries,
    entry.serial = entry'.serial → entry = entry'
  later : ∀ stretch ∈ log.past, ∀ old ∈ stretch, ∀ new ∈ log.recent,
    old.entry.serial < new.entry.serial

/-- The cache is what the log makes it. -/
structure Recorded (limits : Limits) (cache : Cache) (log : Log) : Prop where
  mirrors : Mirrors limits cache log
  numbered : Numbered cache log
  shared : ∀ stretch ∈ log.past, Shares limits stretch

/-- A formula that is handed out once more leaves the numbers as they are. -/
theorem Numbered.again (h : Numbered cache log) {first : Hit} (hfirst : first ∈ log.recent) :
    Numbered cache (log.add [⟨source, first.entry⟩]) := by
  have before : first.entry ∈ log.entries := Log.entries_recent hfirst
  have handed : ∀ entry ∈ (log.add [⟨source, first.entry⟩]).entries, entry ∈ log.entries := by
    intro entry hentry
    rw [Log.entries_add] at hentry
    rcases List.mem_append.1 hentry with old | new
    · exact old
    · obtain rfl := List.mem_singleton.1 new
      exact before
  refine ⟨?_, ?_, ?_⟩
  · intro entry hentry
    exact h.below entry (handed entry hentry)
  · intro entry hentry entry' hentry'
    exact h.told entry (handed entry hentry) entry' (handed entry' hentry')
  · intro stretch hstretch old hold new hnew
    rcases List.mem_append.1 hnew with known | again
    · exact h.later stretch hstretch old hold new known
    · rw [List.mem_singleton.1 again]
      exact h.later stretch hstretch old hold first hfirst

/-- A formula that is new gets a number above all others. -/
theorem Numbered.fresh (h : Numbered cache log) (source key : String) (formula : Formula) :
    Numbered (cache.insert key formula) (log.add [⟨source, ⟨cache.nextSerial, formula⟩⟩]) := by
  have handed (entry : Entry)
      (hentry : entry ∈ (log.add [⟨source, ⟨cache.nextSerial, formula⟩⟩]).entries) :
      entry ∈ log.entries ∨ entry = ⟨cache.nextSerial, formula⟩ := by
    rw [Log.entries_add] at hentry
    exact (List.mem_append.1 hentry).imp_right List.mem_singleton.1
  refine ⟨?_, ?_, ?_⟩
  · intro entry hentry
    rcases handed entry hentry with old | rfl
    · exact Nat.lt_succ_of_lt (h.below entry old)
    · exact Nat.lt_succ_self cache.nextSerial
  · intro entry hentry entry' hentry' same
    rcases handed entry hentry with old | rfl
    · rcases handed entry' hentry' with old' | rfl
      · exact h.told entry old entry' old' same
      · exact absurd same (Nat.ne_of_lt (h.below entry old))
    · rcases handed entry' hentry' with old' | rfl
      · exact absurd same.symm (Nat.ne_of_lt (h.below entry' old'))
      · rfl
  · intro stretch (hstretch : stretch ∈ log.past) old hold new hnew
    rcases List.mem_append.1 hnew with known | compiled
    · exact h.later stretch hstretch old hold new known
    · have before : old.entry ∈ log.entries := Log.entries_past hstretch hold
      rw [List.mem_singleton.1 compiled]
      exact h.below old.entry before

namespace Mirrors

/-- The present stretch shares its formulas. -/
theorem shares (h : Mirrors limits cache log) : Shares limits log.recent := by
  intro hit hhit
  have held := h.found hit hhit
  obtain ⟨first, hfirst, hentry, hsource⟩ := h.compiled _ _ held
  obtain ⟨hcompile, -⟩ := h.coherent.compiled _ _ held
  rw [hentry, hsource] at hcompile
  exact ⟨first, hfirst, hentry, hsource, hcompile⟩

/-- What is held was handed out in the present stretch, under the same normal form. -/
theorem exists_hit (h : Mirrors limits cache log) {key : String} {entry : Entry}
    (hfind : cache.find? key = some entry) :
    ∃ first ∈ log.recent, first.key = key ∧ entry = first.entry := by
  obtain ⟨first, hfirst, hentry, -⟩ := h.compiled key entry hfind
  obtain ⟨hmem, hkey⟩ := first?_eq_some hfirst
  exact ⟨first, hmem, hkey, hentry⟩

/-- A formula that is there is handed out once more. -/
theorem again (h : Mirrors limits cache log) {entry : Entry}
    (hfind : cache.find? (Text.collapse source) = some entry) :
    Mirrors limits cache (log.add [⟨source, entry⟩]) := by
  obtain ⟨first, hmem, hkey, -⟩ := h.exists_hit hfind
  have known : Text.collapse source ∈ log.keys := hkey ▸ List.mem_map_of_mem hmem
  refine ⟨h.coherent, h.listed, ?_, ?_, ?_⟩
  · rw [Log.keys_add, h.keys]
    exact congrArg List.reverse (eraseDups_concat_of_mem known).symm
  · intro hit hhit
    rcases List.mem_append.1 hhit with old | new
    · exact h.found hit old
    · rw [List.mem_singleton.1 new]
      exact hfind
  · intro key other hother
    obtain ⟨first, hfirst, rest⟩ := h.compiled key other hother
    exact ⟨first, first?_concat_of_some hfirst _, rest⟩

/-- A formula that is not there is compiled and gets a new number. -/
theorem fresh (h : Mirrors limits cache log) {formula : Formula}
    (hfind : cache.find? (Text.collapse source) = none)
    (hcompile : compile limits source = .ok formula) :
    Mirrors limits (cache.insert (Text.collapse source) formula)
      (log.add [⟨source, ⟨cache.nextSerial, formula⟩⟩]) := by
  have other (key : String) (entry : Entry) (held : cache.find? key = some entry) :
      key ≠ Text.collapse source := by
    rintro rfl
    rw [hfind] at held
    cases held
  have unknown : ∀ hit ∈ log.recent, hit.key ≠ Text.collapse source := fun hit hhit =>
    other hit.key hit.entry (h.found hit hhit)
  refine ⟨h.coherent.insert hcompile, ?_, ?_, ?_, ?_⟩
  · intro key entry hmem
    rw [find?_insert]
    rcases List.mem_cons.1 hmem with new | old
    · obtain ⟨rfl, rfl⟩ := Prod.mk.inj new
      exact if_pos rfl
    · have held := h.listed key entry old
      rw [if_neg (other key entry held), held]
  · have notMem : Text.collapse source ∉ log.keys := by
      intro hmem
      obtain ⟨hit, hhit, hkey⟩ := List.mem_map.1 hmem
      exact unknown hit hhit hkey
    rw [Log.keys_add, List.map_singleton]
    refine Eq.trans ?_ (congrArg List.reverse (eraseDups_concat_of_not_mem notMem).symm)
    rw [List.reverse_concat, ← h.keys]
    rfl
  · intro hit hhit
    rw [find?_insert]
    rcases List.mem_append.1 hhit with old | new
    · rw [if_neg (unknown hit old), h.found hit old]
    · rw [List.mem_singleton.1 new]
      exact if_pos rfl
  · intro key entry held
    rw [find?_insert] at held
    split at held
    · next hkey =>
      obtain rfl := Option.some.inj held
      obtain rfl := hkey
      exact ⟨_, first?_concat_of_ne unknown, rfl, (compile_eq_ok hcompile).1⟩
    · obtain ⟨first, hfirst, rest⟩ := h.compiled key entry held
      exact ⟨first, first?_concat_of_some hfirst _, rest⟩

end Mirrors

namespace Recorded

/-- An empty cache is what an empty log makes it. -/
theorem empty (limits : Limits) : Recorded limits (.empty limits) .empty where
  mirrors := ⟨coherent_empty limits, nofun, rfl, nofun, nofun⟩
  numbered := ⟨nofun, nofun, nofun⟩
  shared := nofun

/-- **One look-up keeps a cache and its log together.** -/
theorem get (h : Recorded limits cache log) (source : String) :
    Recorded limits (cache.get source).2 (log.add (hits source (cache.get source).1)) := by
  cases hfind : cache.find? (Text.collapse source) with
  | some entry =>
    obtain ⟨first, hmem, -, rfl⟩ := h.mirrors.exists_hit hfind
    rw [get_of_find?_eq_some hfind]
    exact ⟨h.mirrors.again hfind, h.numbered.again hmem, h.shared⟩
  | none =>
    rw [get_of_find?_eq_none hfind, h.mirrors.coherent.limits_eq]
    cases hcompile : compile limits source with
    | ok formula =>
      exact ⟨h.mirrors.fresh hfind hcompile, h.numbered.fresh source _ formula, h.shared⟩
    | error e =>
      rw [map_error, hits, Log.add_nil]
      exact h

/-- Look-ups one after the other keep a cache to be what its log makes it. -/
theorem lookups (h : Recorded limits cache log) (sources : List String) :
    Recorded limits (cache.lookups sources).2 (log.add (cache.lookups sources).1) := by
  induction sources generalizing cache log with
  | nil =>
    rw [Cache.lookups, Log.add_nil]
    exact h
  | cons source sources ih =>
    have later := ih (h.get source)
    rw [Log.add_add] at later
    exact later

/-- In every stretch the hits share their formulas. -/
theorem shares (h : Recorded limits cache log) :
    ∀ stretch ∈ log.stretches, Shares limits stretch := by
  intro stretch hstretch
  rcases List.mem_append.1 hstretch with old | present
  · exact h.shared stretch old
  · rw [List.mem_singleton.1 present]
    exact h.mirrors.shares

/-- A clearing begins a new stretch. -/
theorem clear (h : Recorded limits cache log) :
    Recorded limits cache.clear ⟨log.stretches, []⟩ := by
  have handed : Log.entries ⟨log.stretches, []⟩ = log.entries := by
    simp [Log.entries, Log.stretches]
  refine ⟨⟨h.mirrors.coherent.clear, nofun, rfl, nofun, nofun⟩, ⟨?_, ?_, ?_⟩, h.shares⟩
  · rw [handed]
    exact h.numbered.below
  · rw [handed]
    exact h.numbered.told
  · exact fun _ _ _ _ _ => nofun

/-- **One step keeps a cache and its log together.** -/
theorem step (h : Recorded limits cache log) (step : Step) :
    Recorded limits (cache.step step).2 (log.step cache step) := by
  by_cases hstep : step = .clear
  · rw [hstep]
    exact h.clear
  · rw [step_eq_lookups cache hstep, Log.step]
    · exact h.lookups step.sources
    · exact hstep

/-- So do the steps of a session, clearings included. -/
theorem steps (h : Recorded limits cache log) (history : List Step) :
    Recorded limits (cache.steps history).2 (log.steps cache history) := by
  induction history generalizing cache log with
  | nil => exact h
  | cons step history ih => exact ih (h.step step)

/-- **A cache is what its log makes it, after every history.** -/
theorem after (limits : Limits) (history : List Step) :
    Recorded limits (Cache.after limits history) (Log.after limits history) :=
  (empty limits).steps history

end Recorded

/-- What is held stays. -/
theorem kept_found (key : String) (entry : Entry) :
    Kept fun cache => cache.find? key = some entry := by
  refine Kept.of_insert fun cache source formula held hfind _ => ?_
  have other : key ≠ Text.collapse source := by
    rintro rfl
    rw [hfind] at held
    cases held
  rw [find?_insert, if_neg other, held]

/-- An answer that is an error leaves the cache as it was. -/
theorem get_of_error {e : Error} (h : (cache.get source).1 = .error e) :
    (cache.get source).2 = cache := by
  cases hfind : cache.find? (Text.collapse source) with
  | some entry => rw [get_of_find?_eq_some hfind]
  | none =>
    rw [get_of_find?_eq_none hfind] at h ⊢
    cases hcompile : compile cache.limits source with
    | error e => rfl
    | ok formula =>
      rw [hcompile] at h
      cases h

/-- **A cache is a map of the look-ups since it was last cleared.**  After every history under any
limits it has these limits, and

* its keys are the normal forms of the hits since the last clearing, each once and the latest first;
* under each key is a formula with this normal form, the one that its source compiles to;
* a look-up that fails leaves it as it is, and so does a rating that is not by a formula; any other
  step, unless it clears the cache, looks up its texts one after the other and does nothing else;
* in each stretch between two clearings all hits of a normal form got one and the same formula,
  which the first of them compiled from its own spelling; what is held stays until the next
  clearing; and a formula that was handed out keeps its serial number to itself, also when the cache
  is cleared: whatever is handed out afterwards has a greater one. -/
theorem cache_is_map_of_hits (limits : Limits) (history : List Step) :
    let cache := after limits history
    let log := Log.after limits history
    (cache.limits = limits ∧ cache.entries.map Prod.fst = log.keys.eraseDups.reverse ∧
      cache.size = log.keys.eraseDups.length) ∧
    (∀ key entry, (key, entry) ∈ cache.entries →
      entry.formula.normalized = key ∧ Text.collapse entry.formula.source = key ∧
        compile limits entry.formula.source = .ok entry.formula) ∧
    ((∀ source e, (cache.get source).1 = .error e → (cache.get source).2 = cache) ∧
      (∀ config player, config.algorithm ≠ .custom →
        (Rating.rateWith cache config player).2 = cache) ∧
      ∀ step, step ≠ .clear → (cache.step step).2 = (cache.lookups step.sources).2) ∧
    (∀ stretch ∈ log.stretches, Shares limits stretch) ∧
    (∀ step, step ≠ .clear → ∀ key entry, cache.find? key = some entry →
      (cache.step step).2.find? key = some entry) ∧
    (∀ entry ∈ log.entries, ∀ entry' ∈ log.entries,
      entry.serial = entry'.serial → entry = entry') ∧
    ∀ stretch ∈ log.past, ∀ old ∈ stretch, ∀ new ∈ log.recent,
      old.entry.serial < new.entry.serial := by
  intro cache log
  have h : Recorded limits cache log := .after limits history
  have counted : cache.size = log.keys.eraseDups.length := by
    have lengths := congrArg List.length h.mirrors.keys
    rw [List.length_map, List.length_reverse] at lengths
    exact lengths
  refine ⟨⟨h.mirrors.coherent.limits_eq, h.mirrors.keys, counted⟩, ?_, ⟨?_, ?_, ?_⟩, h.shares, ?_,
    h.numbered.told, h.numbered.later⟩
  · intro key entry hmem
    obtain ⟨hcompile, hkey⟩ :=
      h.mirrors.coherent.compiled key entry (h.mirrors.listed key entry hmem)
    refine ⟨?_, hkey, hcompile⟩
    rw [(compile_eq_ok hcompile).2.1, hkey]
  · exact fun source e => get_of_error
  · intro config player hbuiltIn
    rw [Rating.rateWith_builtIn hbuiltIn]
  · exact fun step => step_eq_lookups cache
  · intro step hstep key entry held
    rw [step_eq_lookups cache hstep]
    exact (kept_found key entry).lookups step.sources held

/-- The variable `ones` as it was compiled from a spelling. -/
def onesFrom (serial : Nat) (spelling : String) : Entry := ⟨serial, ⟨spelling, "ones", .var "ones"⟩⟩

/-- Three spellings of one formula, with a clearing before the third. -/
def spellings : List Step := [.get "ones", .evaluate " ones" .sample, .clear, .get " ones "]

/-- The hits of the first two spellings. -/
def twoSpellings : List Hit := [⟨"ones", onesFrom 0 "ones"⟩, ⟨" ones", onesFrom 0 "ones"⟩]

/-- The first two spellings get the formula of the first one, and the third gets its own; the empty
text and the rating by the highest peak leave the cache as it is, and another formula leaves `ones`
where it is. -/
theorem cache_is_map_of_hits_spellings :
    Log.after .standard spellings = ⟨[twoSpellings], [⟨" ones ", onesFrom 1 " ones "⟩]⟩ ∧
    (after .standard spellings).entries = [("ones", onesFrom 1 " ones ")] ∧
    compile .standard " ones " = .ok (onesFrom 1 " ones ").formula ∧
    ((after .standard spellings).get "").1 = .error (.grammar .empty) ∧
    ((after .standard spellings).get "").2 = after .standard spellings ∧
    (Rating.rateWith (after .standard spellings) .byPeak .sample).2 =
      after .standard spellings ∧
    Shares .standard twoSpellings ∧
    ((after .standard spellings).step (.get "twos")).2.find? "ones" =
      some (onesFrom 1 " ones ") ∧
    (onesFrom 0 "ones").serial < (onesFrom 1 " ones ").serial := by
  have log : Log.after .standard spellings =
      ⟨[twoSpellings], [⟨" ones ", onesFrom 1 " ones "⟩]⟩ := by decide +kernel
  have entries : (after .standard spellings).entries = [("ones", onesFrom 1 " ones ")] := by
    decide +kernel
  have empty : ((after .standard spellings).get "").1 = .error (.grammar .empty) := by
    decide +kernel
  have held : (after .standard spellings).find? "ones" = some (onesFrom 1 " ones ") := by
    decide +kernel
  have main := cache_is_map_of_hits .standard spellings
  dsimp only at main
  obtain ⟨-, compiled, ⟨failing, builtIn, -⟩, shares, stays, -, later⟩ := main
  rw [entries] at compiled
  rw [log] at shares later
  have third := (compiled _ _ List.mem_cons_self).2.2
  have rated := builtIn .byPeak .sample (by decide)
  have shared := shares twoSpellings List.mem_cons_self
  have twos := stays (.get "twos") Step.noConfusion "ones" _ held
  have older := later twoSpellings List.mem_cons_self _ List.mem_cons_self _ List.mem_cons_self
  exact ⟨log, entries, third, empty, failing "" _ empty, rated, shared, twos, older⟩

end Cache
end Formula
end GuildRating
