/-
# How far a cache is transparent

Under each key a cache holds a formula that was compiled, under the limits of the cache, from a
text with the key as its normal form (`Coherent`); every look-up keeps this.  A look-up therefore
answers as compiling does, with one exception (`get_agrees_iff_not_overlooked`): the length of a
text is overlooked when a formula with its normal form is held already, so that a spelling above
the limit, which does not compile, gets that formula.
-/

import GuildRating.Proofs.Cache.Lookups
import GuildRating.Proofs.Spelling

namespace GuildRating
namespace Formula
namespace Cache

variable {limits : Limits} {cache : Cache} {source : String}

/-- Every formula that is held was compiled under the limits, and its key is its normal form. -/
structure Coherent (limits : Limits) (cache : Cache) : Prop where
  limits_eq : cache.limits = limits
  compiled : ∀ key entry, cache.find? key = some entry →
    compile limits entry.formula.source = .ok entry.formula ∧
      Text.collapse entry.formula.source = key

/-- A formula that is put in is found under its key, and what is found under other keys stays. -/
theorem find?_insert (cache : Cache) (key key' : String) (formula : Formula) :
    (cache.insert key formula).find? key' =
      if key' = key then some ⟨cache.nextSerial, formula⟩ else cache.find? key' := by
  rw [find?, insert, List.lookup_cons]
  by_cases h : key' = key
  · rw [if_pos h, h, beq_self_eq_true]
  · rw [if_neg h, beq_eq_false_iff_ne.2 h]
    rfl

/-- **A text whose normal form is held gets what is held**, whatever it is itself. -/
theorem get_of_find?_eq_some {entry : Entry}
    (h : cache.find? (Text.collapse source) = some entry) :
    cache.get source = (.ok entry, cache) := by
  rw [get, h]

/-- A text whose normal form is not held is compiled, and held if it compiles. -/
theorem get_of_find?_eq_none (h : cache.find? (Text.collapse source) = none) :
    cache.get source =
      ((compile cache.limits source).map fun formula => ⟨cache.nextSerial, formula⟩,
        match compile cache.limits source with
        | .ok formula => cache.insert (Text.collapse source) formula
        | .error _ => cache) := by
  rw [get, h]
  cases compile cache.limits source with
  | error e => rfl
  | ok formula => rfl

/-- What the insertion of a formula that is not held yet keeps, a look-up keeps: it does nothing
else to a cache. -/
theorem Kept.of_insert {P : Cache → Prop}
    (hP : ∀ (cache : Cache) (source : String) (formula : Formula), P cache →
      cache.find? (Text.collapse source) = none → compile cache.limits source = .ok formula →
      P (cache.insert (Text.collapse source) formula)) : Kept P := by
  intro cache source h
  cases hfind : cache.find? (Text.collapse source) with
  | some entry =>
    rw [get_of_find?_eq_some hfind]
    exact h
  | none =>
    rw [get_of_find?_eq_none hfind]
    cases hcompile : compile cache.limits source with
    | error e => exact h
    | ok formula => exact hP cache source formula h hfind hcompile

theorem coherent_empty (limits : Limits) : Coherent limits (empty limits) :=
  ⟨rfl, fun _ _ h => by cases h⟩

/-- Clearing a cache keeps it coherent. -/
theorem Coherent.clear (h : Coherent limits cache) : Coherent limits cache.clear :=
  ⟨h.limits_eq, fun _ _ h => by cases h⟩

/-- So does putting in what a text compiles to, under the normal form of the text. -/
theorem Coherent.insert (h : Coherent limits cache) {formula : Formula}
    (hcompile : compile limits source = .ok formula) :
    Coherent limits (cache.insert (Text.collapse source) formula) := by
  refine ⟨h.limits_eq, fun key entry hfind => ?_⟩
  rw [find?_insert] at hfind
  split at hfind
  · next hkey =>
    cases hfind
    obtain ⟨hsource, -, -⟩ := compile_eq_ok hcompile
    exact ⟨by rw [hsource, hcompile], by rw [hsource, hkey]⟩
  · exact h.compiled key entry hfind

/-- **A look-up keeps a cache coherent.** -/
theorem kept_coherent (limits : Limits) : Kept (Coherent limits) := by
  refine Kept.of_insert fun cache source formula h _ hcompile => h.insert ?_
  rwa [h.limits_eq] at hcompile

/-- **A cache is coherent after every history.** -/
theorem coherent_after (limits : Limits) (history : List Step) :
    Coherent limits (after limits history) :=
  (kept_coherent limits).after (fun _ => Coherent.clear) (coherent_empty limits) history

/-- The length of the text is overlooked: it is above the limit, yet a formula with its normal form
is held. -/
def Overlooks (cache : Cache) (source : String) : Prop :=
  cache.limits.maxLength < source.length ∧ (cache.find? (Text.collapse source)).isSome = true

/-- The tree that a look-up answers with. -/
def treeOf (cache : Cache) (source : String) : Except Error Expr :=
  (cache.get source).1.map fun entry => entry.formula.tree

/-- Compiling refuses a text above the limit of length, whatever it says. -/
theorem compile_of_lt (h : limits.maxLength < source.length) :
    compile limits source = .error (.scan (.tooLong source.length limits.maxLength)) := by
  rw [compile, read, scan_of_lt h]
  rfl

/-- Unless the length is overlooked, a look-up answers as compiling does. -/
theorem Coherent.treeOf_eq (h : Coherent limits cache) (ho : ¬ cache.Overlooks source) :
    cache.treeOf source = (compile limits source).map Formula.tree := by
  rw [treeOf]
  cases hfind : cache.find? (Text.collapse source) with
  | none =>
    rw [get_of_find?_eq_none hfind, h.limits_eq]
    cases compile limits source <;> rfl
  | some entry =>
    rw [get_of_find?_eq_some hfind, map_ok]
    -- The entry came from a spelling within the limit, and so does the text, as nothing is
    -- overlooked: two spellings of one formula.
    obtain ⟨hcompile, hkey⟩ := h.compiled _ _ hfind
    obtain ⟨hlength, -⟩ := read_eq_ok (compile_eq_ok hcompile).2.2
    have hshort : source.length ≤ limits.maxLength := by
      rw [Overlooks, hfind, h.limits_eq] at ho
      exact Nat.not_lt.1 fun hlt => ho ⟨hlt, rfl⟩
    have same := compile_placeless (words_eq_of_collapse_eq hkey) hlength hshort
    rw [hcompile, map_ok, mapError_ok] at same
    exact (mapError_eq_ok.1 same.symm).symm

/-- Where the length is overlooked, compiling refuses the text, and a look-up answers with the tree
of its normal form. -/
theorem Coherent.treeOf_of_overlooks (h : Coherent limits cache) (ho : cache.Overlooks source) :
    compile limits source = .error (.scan (.tooLong source.length limits.maxLength)) ∧
      ∃ tree, cache.treeOf source = .ok tree ∧
        (compile limits (Text.collapse source)).map Formula.tree = .ok tree := by
  obtain ⟨hlong, hheld⟩ := ho
  rw [h.limits_eq] at hlong
  obtain ⟨entry, hfind⟩ := Option.isSome_iff_exists.1 hheld
  refine ⟨compile_of_lt hlong, entry.formula.tree, ?_, ?_⟩
  · rw [treeOf, get_of_find?_eq_some hfind, map_ok]
  · obtain ⟨hcompile, hkey⟩ := h.compiled _ _ hfind
    obtain ⟨hlength, -⟩ := read_eq_ok (compile_eq_ok hcompile).2.2
    have hcollapse := Text.collapse_collapse entry.formula.source
    have same := compile_placeless (words_eq_of_collapse_eq hcollapse)
      (Nat.le_trans (Text.length_collapse_le _) hlength) hlength
    rw [hcompile, map_ok, mapError_ok, hkey] at same
    exact mapError_eq_ok.1 same

/-- A tree that was found has a value or none, but is never refused as a text. -/
theorem ofTree_ok_ne (tree : Expr) (player : Player) (e : ScanError) :
    Rating.ofTree (.ok tree) player ≠ .error (.formula (.scan e)) := by
  rw [Rating.ofTree, ok_bind]
  cases tree.eval .full (.ofPlayer player) with
  | error e' => nofun
  | ok value => nofun

/-- **A cache is transparent but for the length of a text it overlooks.**  After every history a
look-up answers with the tree or the error of compiling, unless the length is overlooked; then
compiling refuses the text as too long, and the look-up answers with the tree of its normal form.
Hence, under the standard limits, rating with the cache is rating without it, unless the
configuration has a formula whose length is overlooked. -/
theorem get_agrees_iff_not_overlooked (history : List Step) :
    (∀ limits source,
      ((after limits history).treeOf source = (compile limits source).map Formula.tree ↔
        ¬ (after limits history).Overlooks source) ∧
      ((after limits history).Overlooks source →
        compile limits source = .error (.scan (.tooLong source.length limits.maxLength)) ∧
        ∃ tree, (after limits history).treeOf source = .ok tree ∧
          (compile limits (Text.collapse source)).map Formula.tree = .ok tree)) ∧
    (∀ config player,
      (Rating.rateWith (after .standard history) config player).1 = Rating.rate config player ↔
        ¬ (config.algorithm = .custom ∧ ∃ source, config.formula? = some source ∧
          (after .standard history).Overlooks source)) := by
  constructor
  · intro limits source
    have h := coherent_after limits history
    refine ⟨⟨?_, h.treeOf_eq⟩, h.treeOf_of_overlooks⟩
    intro agree ho
    obtain ⟨hcompile, tree, htree, -⟩ := h.treeOf_of_overlooks ho
    rw [hcompile, htree] at agree
    cases agree
  · intro config player
    have h := coherent_after .standard history
    by_cases hc : config.algorithm = .custom
    · cases hf : config.formula? with
      | none =>
        rw [Rating.rateWith_missing hc hf, Rating.rate_missing hc hf]
        simp
      | some source =>
        rw [Rating.rateWith_custom hc hf, Rating.rate_custom hc hf]
        constructor
        · rintro agree ⟨-, source', hsource, ho⟩
          cases hsource
          obtain ⟨hcompile, tree, htree, -⟩ := h.treeOf_of_overlooks ho
          rw [treeOf] at htree
          rw [htree, hcompile] at agree
          exact ofTree_ok_ne tree player _ agree
        · intro ho
          rw [← h.treeOf_eq fun overlooked => ho ⟨hc, source, rfl, overlooked⟩, treeOf]
    · rw [Rating.rateWith_builtIn hc, Rating.rate_builtIn hc]
      exact ⟨fun _ overlooked => hc overlooked.1, fun _ => rfl⟩

/-- Room for `ones` and no more. -/
def fourCharacters : Limits := { Limits.standard with maxLength := 4 }

/-- Once `ones` is held, a spelling of it with a space in front, which is too long to compile, is
answered. -/
theorem overlooks_spaced_ones :
    (after fourCharacters [.get "ones"]).Overlooks " ones" ∧
    compile fourCharacters " ones" = .error (.scan (.tooLong 5 4)) ∧
    (after fourCharacters [.get "ones"]).treeOf " ones" = .ok (.var "ones") ∧
    (after fourCharacters [.get "ones"]).treeOf " ones" ≠
      (compile fourCharacters " ones").map Formula.tree := by
  have held : (after fourCharacters [.get "ones"]).Overlooks " ones" := by
    refine ⟨?_, by cbv⟩
    rw [(coherent_after fourCharacters _).limits_eq]
    decide
  have spaced : (compile fourCharacters (Text.collapse " ones")).map Formula.tree =
      .ok (.var "ones") := by cbv
  obtain ⟨agrees, exception⟩ :=
    (get_agrees_iff_not_overlooked [.get "ones"]).1 fourCharacters " ones"
  obtain ⟨hcompile, tree, htree, hnormal⟩ := exception held
  obtain rfl : Expr.var "ones" = tree := Except.ok.inj (spaced.symm.trans hnormal)
  exact ⟨held, hcompile, htree, fun agree => agrees.1 agree held⟩

end Cache
end Formula
end GuildRating
