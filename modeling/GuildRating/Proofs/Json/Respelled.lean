/-
# Respelled objects

The fields of an object may stand in another order, fields may be added that nobody reads, and a
setting that is unset may be missing or null; and the same again inside the objects that fields
hold.  `Respelled` relates the objects that differ in these ways only, for a layout that says which
fields are read and which may be unset.  A structure is read alike from all of them, if each of its
readers takes null for a missing field wherever the layout does (`Respelled.read_eq`).
-/

import GuildRating.Proofs.Json.Slots
import Mathlib.Data.List.Perm.Basic

namespace GuildRating
namespace Json

/-- The fields of a structure. -/
structure Layout where
  names : List String
  /-- The fields that may be unset. -/
  optional : List String
  /-- The fields that hold structures. -/
  nested : List (String × Layout)

/-- The fields of two objects that say the same. -/
inductive Respelled : Layout → List (Option String × Json) → List (Option String × Json) → Prop
  | refl {layout : Layout} {fields : List (Option String × Json)} : Respelled layout fields fields
  | symm {layout : Layout} {fields fields' : List (Option String × Json)} :
      Respelled layout fields fields' → Respelled layout fields' fields
  | trans {layout : Layout} {fields fields' fields'' : List (Option String × Json)} :
      Respelled layout fields fields' → Respelled layout fields' fields'' →
      Respelled layout fields fields''
  | reordered {layout : Layout} {fields fields' : List (Option String × Json)} :
      fields.Perm fields' → Respelled layout fields fields'
  | unknown {layout : Layout} {fields : List (Option String × Json)} {name : String}
      {value : Json} : name ∉ layout.names → Respelled layout fields ((some name, value) :: fields)
  | unset {layout : Layout} {fields : List (Option String × Json)} {name : String} :
      name ∈ layout.optional → valuesOf name fields = [] →
      Respelled layout fields ((some name, .null) :: fields)
  | inside {layout inner : Layout} {fields part part' : List (Option String × Json)}
      {name : String} : (name, inner) ∈ layout.nested → Respelled inner part part' →
      Respelled layout ((some name, .object part) :: fields) ((some name, .object part') :: fields)

/-- The structure is read alike from respelled objects. -/
def Layout.ReadAlike {α : Type} (layout : Layout) (read? : Json → Option α) : Prop :=
  ∀ fields fields', Respelled layout fields fields' →
    read? (.object fields) = read? (.object fields')

/-- The reader of this slot does not mind how the field is spelled. -/
structure Layout.Respects {α : Type} (layout : Layout) (name : String)
    (read : Option Json → Option α) : Prop where
  unset : name ∈ layout.optional → read (some .null) = read none
  inside : ∀ inner, (name, inner) ∈ layout.nested → inner.ReadAlike fun value => read (some value)

section Readers

variable {α : Type} {layout : Layout} {name : String} {read? : Json → Option α}

/-- A setting that may be unset can be read from any field: null and nothing are the same to its
reader. -/
theorem respects_optional? (h : ∀ inner, (name, inner) ∈ layout.nested → inner.ReadAlike read?) :
    layout.Respects name (optional? read?) where
  unset _ := rfl
  inside inner hinner fields fields' hrespelled := by
    show (read? (.object fields)).map some = (read? (.object fields')).map some
    rw [h inner hinner fields fields' hrespelled]

/-- What must be there can be read from a field that is never unset. -/
theorem respects_required (hset : name ∉ layout.optional)
    (h : ∀ inner, (name, inner) ∈ layout.nested → inner.ReadAlike read?) :
    layout.Respects name (required read?) where
  unset hunset := absurd hunset hset
  inside := h

/-- What has a default can be read from a field that is never unset: null is not the default. -/
theorem respects_orElse {missing : α} (hset : name ∉ layout.optional)
    (h : ∀ inner, (name, inner) ∈ layout.nested → inner.ReadAlike read?) :
    layout.Respects name (orElse missing read?) where
  unset hunset := absurd hunset hset
  inside := h

end Readers

/-- Slots that are read alike by whoever respects the layout. -/
inductive Layout.Alike (layout : Layout) :
    List String → List (Option Json) → List (Option Json) → Prop
  | nil : Alike layout [] [] []
  | cons {name : String} {names : List String} {slot slot' : Option Json}
      {slots slots' : List (Option Json)} :
      (∀ {α : Type} (read : Option Json → Option α), layout.Respects name read →
        read slot = read slot') →
      Alike layout names slots slots' →
      Alike layout (name :: names) (slot :: slots) (slot' :: slots')

namespace Respelled

variable {α β : Type} {layout : Layout} {fields fields' : List (Option String × Json)}
  {name : String} {read : Option Json → Option α}

/-- The slot of a field does not depend on where the field stands. -/
theorem slot?_perm (h : fields.Perm fields') (name : String) :
    slot? fields name = slot? fields' name := by
  have hperm : (valuesOf name fields).Perm (valuesOf name fields') := (h.filter _).map _
  rw [slot?, slot?]
  cases hvalues : valuesOf name fields with
  | nil =>
    rw [hvalues] at hperm
    rw [hperm.nil_eq]
  | cons value rest =>
    rw [hvalues] at hperm
    cases rest with
    | nil => rw [List.singleton_perm.1 hperm]
    | cons value' rest =>
      have hlength := hperm.length_eq
      cases hvalues' : valuesOf name fields' with
      | nil => simp [hvalues'] at hlength
      | cons other others =>
        cases others with
        | nil => simp [hvalues'] at hlength
        | cons _ _ => rfl

/-- A field of another name is passed over. -/
theorem slot?_cons_of_ne {other : String} (h : other ≠ name) (value : Json)
    (fields : List (Option String × Json)) :
    slot? ((some other, value) :: fields) name = slot? fields name := by
  rw [slot?, slot?, valuesOf_cons_of_ne h]

/-- The slot of a field is read alike. -/
theorem read_slot? (h : Respelled layout fields fields') (hname : name ∈ layout.names)
    (hread : layout.Respects name read) :
    (slot? fields name >>= read) = (slot? fields' name >>= read) := by
  -- each way of respelling changes at most one slot, and that one as the reader allows
  induction h with
  | refl => rfl
  | symm _ ih => exact (ih hname hread).symm
  | trans _ _ ih ih' => exact (ih hname hread).trans (ih' hname hread)
  | reordered hperm => rw [slot?_perm hperm]
  | unknown hother =>
    rw [slot?_cons_of_ne]
    rintro rfl
    exact hother hname
  | @unset layout fields other hoptional habsent =>
    by_cases hother : other = name
    · subst hother
      rw [slot?, slot?, valuesOf_cons_self, habsent]
      exact (hread.unset hoptional).symm
    · rw [slot?_cons_of_ne hother]
  | @inside layout inner fields part part' other hnested hpart _ =>
    by_cases hother : other = name
    · subst hother
      rw [slot?, slot?, valuesOf_cons_self, valuesOf_cons_self]
      cases valuesOf other fields with
      | nil => exact hread.inside inner hnested part part' hpart
      | cons _ _ => rfl
    · rw [slot?_cons_of_ne hother, slot?_cons_of_ne hother]

/-- Respelling makes no name of a field readable and none unreadable. -/
theorem all_isSome (h : Respelled layout fields fields') :
    (fields.all fun field => field.1.isSome) = fields'.all fun field => field.1.isSome := by
  induction h with
  | refl => rfl
  | symm _ ih => exact ih.symm
  | trans _ _ ih ih' => exact ih.trans ih'
  | reordered hperm => exact hperm.all_eq
  | unknown => rfl
  | unset => rfl
  | inside => rfl

/-- Either both have slots, and these are alike, or neither has. -/
theorem slots?_alike (h : Respelled layout fields fields') :
    (slots? layout.names (.object fields) = none ∧ slots? layout.names (.object fields') = none) ∨
      ∃ slots slots', slots? layout.names (.object fields) = some slots ∧
        slots? layout.names (.object fields') = some slots' ∧
        layout.Alike layout.names slots slots' := by
  have alike (part : List String) (hpart : ∀ name ∈ part, name ∈ layout.names) :
      (part.mapM (slot? fields) = none ∧ part.mapM (slot? fields') = none) ∨
        ∃ slots slots', part.mapM (slot? fields) = some slots ∧
          part.mapM (slot? fields') = some slots' ∧ layout.Alike part slots slots' := by
    induction part with
    | nil => exact .inr ⟨[], [], rfl, rfl, .nil⟩
    | cons name part ih =>
      obtain ⟨hname, hrest⟩ := List.forall_mem_cons.1 hpart
      have hslot {α : Type} (read : Option Json → Option α) (hread : layout.Respects name read) :=
        h.read_slot? hname hread
      -- a reader that reads nothing tells whether there is a slot at all
      have hsome := hslot (fun _ => some ()) ⟨fun _ => rfl, fun _ _ _ _ _ => rfl⟩
      rw [List.mapM_cons, List.mapM_cons]
      cases hs : slot? fields name with
      | none =>
        cases hs' : slot? fields' name with
        | none => exact .inl ⟨rfl, rfl⟩
        | some slot' =>
          rw [hs, hs'] at hsome
          cases hsome
      | some slot =>
        cases hs' : slot? fields' name with
        | none =>
          rw [hs, hs'] at hsome
          cases hsome
        | some slot' =>
          rcases ih hrest with ⟨hnone, hnone'⟩ | ⟨slots, slots', hslots, hslots', halike⟩
          · rw [hnone, hnone']
            exact .inl ⟨rfl, rfl⟩
          · rw [hslots, hslots']
            refine .inr ⟨_, _, rfl, rfl, .cons (fun read hread => ?_) halike⟩
            have := hslot read hread
            rwa [hs, hs'] at this
  rw [slots?, slots?, ← h.all_isSome]
  split
  · exact alike layout.names fun _ hname => hname
  · exact .inl ⟨rfl, rfl⟩

/-- **Respelled objects are read alike**, if what becomes of the slots respects the layout. -/
theorem read_eq {assemble : List (Option Json) → Option β} (h : Respelled layout fields fields')
    (hassemble : ∀ slots slots', layout.Alike layout.names slots slots' →
      assemble slots = assemble slots') :
    (slots? layout.names (.object fields) >>= assemble) =
      (slots? layout.names (.object fields') >>= assemble) := by
  rcases h.slots?_alike with ⟨hnone, hnone'⟩ | ⟨slots, slots', hslots, hslots', halike⟩
  · rw [hnone, hnone']
  · rw [hslots, hslots']
    exact hassemble slots slots' halike

end Respelled

end Json
end GuildRating
