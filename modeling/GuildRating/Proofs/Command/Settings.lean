/-
# Settings that come into force

The settings of the working directory are a text of lines, and a value may take up what is set
already.  Reading a value only copies: every character of it stands in the text or in the
environment, or is the line break for which an escape stands (`valueFrom?_clear`).  A value that
holds the character NUL cannot come into force, so where neither the text nor the environment has
one, all settings can (`isSome_environmentOf?`).
-/

import Mathlib.Data.List.Basic
import GuildRating.Command.Run

namespace GuildRating
namespace Command

/-- The text does not hold the character NUL. -/
def Clear (text : List Char) : Prop := '\x00' ∉ text

/-- No name and no value of the environment holds the character NUL. -/
def ClearEnvironment (environment : Environment) : Prop :=
  ∀ setting ∈ environment, Clear setting.1.toList ∧ Clear setting.2.toList

namespace EnvFile

variable {environment : Environment} {text rest : List Char} {c : Char} {p : Progress}

/-! ## One value -/

/-- A value of the environment does not hold NUL if the environment does not. -/
theorem substitute_clear (h : ClearEnvironment environment) (name : List Char) :
    Clear (substitute environment name) := by
  rw [substitute]
  cases found : environment.findSome? _ with
  | none => exact List.not_mem_nil
  | some rest =>
    obtain ⟨setting, hsetting, hrest⟩ := List.exists_of_findSome?_eq_some found
    have whole := List.isPrefixOf?_eq_some_iff_append_eq.1 hrest
    obtain ⟨name, value⟩ := h setting hsetting
    intro hmem
    have : '\x00' ∈ (setting.1 ++ "=" ++ setting.2).toList := by
      rw [← whole]
      exact List.mem_append_right _ hmem
    simp only [String.toList_append, List.mem_append] at this
    rcases this with (hmem | hmem) | hmem
    · exact name hmem
    · exact absurd hmem (by decide)
    · exact value hmem

/-- A character other than NUL can be added. -/
theorem push_clear (hp : Clear p.output) (hc : c ≠ '\x00') : Clear (p.push c).output := by
  intro h
  rcases List.mem_cons.1 h with same | h
  · exact hc same.symm
  · exact hp h

/-- What a name stands for can be added. -/
theorem resolve_clear (he : ClearEnvironment environment) (hp : Clear p.output)
    (name : List Char) : Clear (p.resolve environment name).output := by
  intro h
  rcases List.mem_append.1 h with h | h
  · exact substitute_clear he name (List.mem_reverse.1 h)
  · exact hp h

/-- A step of reading a name adds no NUL. -/
theorem refer_clear (he : ClearEnvironment environment) (hp : Clear p.output) (hc : c ≠ '\x00')
    (reference : Reference) : Clear (p.refer environment c reference).output := by
  cases reference with
  | bare name =>
    rw [Progress.refer]
    split
    · exact hp
    · split
      · exact hp
      · split
        · exact resolve_clear he hp name
        · exact push_clear (resolve_clear he hp name) hc
  | braced name =>
    rw [Progress.refer]
    split
    · exact resolve_clear he hp name
    · exact hp

/-- A step of reading a value adds no NUL. -/
theorem take_clear (hp : Clear p.output) (hc : c ≠ '\x00') : Clear (p.take c).output := by
  unfold Progress.take
  repeat' split
  all_goals first | exact hp | exact push_clear hp hc

/-- No escape stands for NUL. -/
theorem escaped?_ne_nul {e : Char} (h : escaped? c = some e) (hc : c ≠ '\x00') : e ≠ '\x00' := by
  unfold escaped? at h
  split at h
  · obtain rfl := Option.some.inj h
    decide
  · split at h
    · obtain rfl := Option.some.inj h
      exact hc
    · cases h

/-- **A value is copied together** from its text and from the environment. -/
theorem valueFrom?_clear (he : ClearEnvironment environment) {value : String}
    (hp : Clear p.output) (ht : Clear text) (h : valueFrom? environment p text = some value) :
    Clear value.toList := by
  have done {output : List Char} (ho : Clear output) :
      Clear (String.ofList output.reverse).toList := by
    rw [String.toList_ofList]
    exact fun hmem => ho (List.mem_reverse.1 hmem)
  induction text generalizing p with
  | nil =>
    unfold valueFrom? at h
    split at h
    · cases h
    · split at h
      · cases h
      · obtain rfl := Option.some.inj h
        exact done (resolve_clear he hp _)
    · split at h
      · cases h
      · obtain rfl := Option.some.inj h
        exact done hp
  | cons c rest ih =>
    have hc : c ≠ '\x00' := fun same => ht (same ▸ List.mem_cons_self)
    have hrest : Clear rest := fun hmem => ht (List.mem_cons_of_mem _ hmem)
    unfold valueFrom? at h
    split at h
    · -- behind the end of the value only blanks and a comment follow
      split at h
      · exact ih hp hrest h
      · split at h
        · obtain rfl := Option.some.inj h
          exact done hp
        · cases h
    · split at h
      · split at h
        · next e hescape =>
          refine ih ?_ hrest h
          exact push_clear hp (escaped?_ne_nul hescape hc)
        · cases h
      · split at h
        · split at h
          · refine ih ?_ hrest h
            exact hp
          · exact ih (push_clear hp hc) hrest h
        · split at h
          · exact ih (refer_clear he hp hc _) hrest h
          · exact ih (take_clear hp hc) hrest h

/-! ## Lines -/

theorem skipBlanks_subset (text : List Char) : skipBlanks text ⊆ text :=
  List.dropWhile_subset _

theorem dropLastBlanks_subset (text : List Char) : dropLastBlanks text ⊆ text := fun _ h =>
  List.mem_reverse.1 (skipBlanks_subset _ (List.mem_reverse.1 h))

/-- Splitting off a name copies characters. -/
theorem name?_subset {name : List Char} (h : name? text = some (name, rest)) :
    name ⊆ text ∧ rest ⊆ text := by
  unfold name? at h
  split at h
  · cases h
  · split at h
    · obtain ⟨rfl, rfl⟩ := Prod.mk.inj (Option.some.inj h)
      exact ⟨List.takeWhile_subset _, List.dropWhile_subset _⟩
    · cases h

/-- So does looking for the equals sign. -/
theorem afterEquals?_subset (h : afterEquals? text = some rest) : rest ⊆ text := by
  unfold afterEquals? at h
  split at h
  · obtain rfl := Option.some.inj h
    exact List.subset_cons_self _ _
  · cases h

/-- The text of a value, behind the name and the equals sign. -/
theorem skipBlanks_afterEquals?_subset {after : List Char}
    (h : afterEquals? (skipBlanks text) = some after) : skipBlanks after ⊆ text := fun _ hc =>
  skipBlanks_subset _ (afterEquals?_subset h (skipBlanks_subset _ hc))

/-- The name and the value of a setting are copied from its line. -/
theorem setting?_subset {name value : List Char} (h : setting? text = some (name, value)) :
    name ⊆ text ∧ value ⊆ text := by
  unfold setting? at h
  obtain ⟨⟨word, rest⟩, hword, h⟩ := Option.bind_eq_some_iff.1 h
  obtain ⟨wordIn, restIn⟩ := name?_subset hword
  dsimp only at h
  split at h
  · next after hafter =>
    obtain ⟨rfl, rfl⟩ := Prod.mk.inj (Option.some.inj h)
    exact ⟨wordIn, fun _ hc => restIn (skipBlanks_afterEquals?_subset hafter hc)⟩
  · split at h
    · -- the first word was `export`, and the name follows
      obtain ⟨⟨word, rest⟩, hword, h⟩ := Option.bind_eq_some_iff.1 h
      obtain ⟨after, hafter, h⟩ := Option.bind_eq_some_iff.1 h
      obtain ⟨rfl, rfl⟩ := Prod.mk.inj (Option.some.inj h)
      obtain ⟨nameIn, laterIn⟩ := name?_subset hword
      have behind : skipBlanks _ ⊆ text := fun _ hc => restIn (skipBlanks_subset _ hc)
      exact ⟨fun _ hc => behind (nameIn hc),
        fun _ hc => behind (laterIn (skipBlanks_afterEquals?_subset hafter hc))⟩
    · cases h

/-- **A line without NUL has a name and a value without NUL.** -/
theorem line?_clear (he : ClearEnvironment environment) (ht : Clear text) {name value : String}
    (h : line? environment text = some (some (name, value))) :
    Clear name.toList ∧ Clear value.toList := by
  unfold line? at h
  have trimmed : Clear (skipBlanks (dropLastBlanks text)) := fun hmem =>
    ht (dropLastBlanks_subset _ (skipBlanks_subset _ hmem))
  dsimp only at h
  split at h
  · cases h
  · obtain ⟨⟨name', value'⟩, hsetting, h⟩ := Option.bind_eq_some_iff.1 h
    obtain ⟨nameIn, valueIn⟩ := setting?_subset hsetting
    have named : Clear (String.ofList name').toList := by
      rw [String.toList_ofList]
      exact fun hmem => trimmed (nameIn hmem)
    dsimp only at h
    split at h
    · obtain ⟨rfl, rfl⟩ := Prod.mk.inj (Option.some.inj (Option.some.inj h))
      exact ⟨named, List.not_mem_nil⟩
    · obtain ⟨read, hread, h⟩ := Option.bind_eq_some_iff.1 h
      obtain ⟨rfl, rfl⟩ := Prod.mk.inj (Option.some.inj (Option.some.inj h))
      have start : Clear (⟨[], none, false, none, false⟩ : Progress).output := List.not_mem_nil
      exact ⟨named, valueFrom?_clear he start (fun hmem => trimmed (valueIn hmem)) hread⟩

/-- Lines without NUL come into force, onto an environment without it. -/
theorem isSome_loadLines {lines : List (List Char)} (he : ClearEnvironment environment)
    (h : ∀ text ∈ lines, Clear text) : (loadLines environment lines).isSome = true := by
  induction lines generalizing environment with
  | nil => rfl
  | cons text lines ih =>
    obtain ⟨ht, hlines⟩ := List.forall_mem_cons.1 h
    rw [loadLines]
    split
    · rfl
    · exact ih he hlines
    · next name value hline =>
      obtain ⟨named, valued⟩ := line?_clear he ht hline
      split
      · exact ih he hlines
      · split
        · next hnul => exact absurd (by simpa using hnul) valued
        · exact ih (List.forall_mem_cons.2 ⟨⟨named, valued⟩, he⟩) hlines

/-- A piece of a text is part of it. -/
theorem subset_intercalate {sep piece : List Char} {pieces : List (List Char)}
    (h : piece ∈ pieces) : piece ⊆ sep.intercalate pieces := by
  induction pieces with
  | nil => cases h
  | cons first pieces ih =>
    cases pieces with
    | nil =>
      obtain rfl := List.mem_singleton.1 h
      simp
    | cons second pieces =>
      rw [List.intercalate_cons_cons]
      rcases List.mem_cons.1 h with rfl | h
      · exact fun _ hc => List.mem_append_left _ (List.mem_append_left _ hc)
      · exact fun _ hc => List.mem_append_right _ (ih h hc)

end EnvFile

/-- **Without the character NUL all settings come into force.** -/
theorem isSome_environmentOf? {files : Files} {environment : Environment}
    (he : ClearEnvironment environment)
    (h : ∀ text, files.read ".env" = some text → Clear text.toList) :
    (environmentOf? files environment).isSome = true := by
  rw [environmentOf?]
  split
  · next text hread =>
    refine EnvFile.isSome_loadLines he fun line hline hmem => h text hread ?_
    have joined : ['\n'].intercalate (text.toList.splitOn '\n') = text.toList :=
      List.intercalate_splitOn '\n'
    rw [← joined]
    exact EnvFile.subset_intercalate hline hmem
  · rfl

end Command
end GuildRating
