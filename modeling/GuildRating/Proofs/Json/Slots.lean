/-
# Slots of a record

A structure is written as a record of the fields that are set (`ofSlots`), and read from a slot for
each field that it declares.  In a record that was written, the slot of a field holds what was
written for it, and a field that was left out has an empty slot (`slots?_ofSlots`), so that each
field can be looked at alone.
-/

import GuildRating.Json.Record

namespace GuildRating
namespace Json

variable {α : Type} {name : String} {slots : List (String × Option Json)}

/-- The fields that are set, as an object has them. -/
def setFields (slots : List (String × Option Json)) : List (Option String × Json) :=
  (slots.flatMap fun slot => optional slot.1 slot.2).map fun field => (some field.1, field.2)

/-- The record of the fields that are set. -/
def ofSlots (slots : List (String × Option Json)) : Json := .object (setFields slots)

/-- A record whose fields are written one after the other is that of its slots. -/
theorem record_eq_ofSlots (slots : List (String × Option Json)) :
    record (slots.flatMap fun slot => optional slot.1 slot.2) = ofSlots slots := rfl

/-- Under one name stands what stands under it in either part. -/
theorem valuesOf_append (name : String) (fields fields' : List (Option String × Json)) :
    valuesOf name (fields ++ fields') = valuesOf name fields ++ valuesOf name fields' := by
  simp [valuesOf]

theorem valuesOf_cons_self (name : String) (value : Json) (fields : List (Option String × Json)) :
    valuesOf name ((some name, value) :: fields) = value :: valuesOf name fields := by
  simp [valuesOf]

theorem valuesOf_cons_of_ne {other : String} (h : other ≠ name) (value : Json)
    (fields : List (Option String × Json)) :
    valuesOf name ((some other, value) :: fields) = valuesOf name fields := by
  simp [valuesOf, h]

theorem setFields_cons (slot : String × Option Json) (slots : List (String × Option Json)) :
    setFields (slot :: slots) =
      (slot.2.toList.map fun value => (some slot.1, value)) ++ setFields slots := by
  obtain ⟨other, value⟩ := slot
  cases value <;> rfl

/-- A field with no slot is not written. -/
theorem valuesOf_setFields_of_not_mem (h : name ∉ slots.map Prod.fst) :
    valuesOf name (setFields slots) = [] := by
  induction slots with
  | nil => rfl
  | cons slot slots ih =>
    obtain ⟨hne, hrest⟩ := not_or.1 (mt List.mem_cons.2 h)
    rw [setFields_cons, valuesOf_append, ih hrest, List.append_nil]
    cases slot.2 with
    | none => rfl
    | some value => exact valuesOf_cons_of_ne (Ne.symm hne) value []

/-- A field is written once if it is set, and else not at all. -/
theorem valuesOf_setFields {value : Option Json} (hnodup : (slots.map Prod.fst).Nodup)
    (h : (name, value) ∈ slots) : valuesOf name (setFields slots) = value.toList := by
  induction slots with
  | nil => cases h
  | cons slot slots ih =>
    obtain ⟨hnew, hrest⟩ := List.nodup_cons.1 hnodup
    rw [setFields_cons, valuesOf_append]
    rcases List.mem_cons.1 h with rfl | hmem
    · rw [valuesOf_setFields_of_not_mem hnew, List.append_nil]
      cases value with
      | none => rfl
      | some value => exact valuesOf_cons_self name value []
    · have hne : slot.1 ≠ name := by
        rintro rfl
        exact hnew (List.mem_map.2 ⟨_, hmem, rfl⟩)
      rw [ih hrest hmem]
      cases slot.2 with
      | none => rfl
      | some other => rw [Option.toList_some, List.map_singleton, valuesOf_cons_of_ne hne]; rfl

/-- The slot of a field that was written holds what was written for it, and is empty if nothing was.
-/
theorem slot?_setFields {value : Option Json} (hnodup : (slots.map Prod.fst).Nodup)
    (h : (name, value) ∈ slots) : slot? (setFields slots) name = some value := by
  rw [slot?, valuesOf_setFields hnodup h]
  cases value <;> rfl

/-- **The slots of a record that was written are those that it was written from.** -/
theorem slots?_ofSlots (slots : List (String × Option Json))
    (hnodup : (slots.map Prod.fst).Nodup) :
    slots? (slots.map Prod.fst) (ofSlots slots) = some (slots.map Prod.snd) := by
  have named : (setFields slots).all (fun field => field.1.isSome) = true := by
    simp [setFields, List.all_eq_true]
  have found (part : List (String × Option Json)) (hpart : ∀ slot ∈ part, slot ∈ slots) :
      (part.map Prod.fst).mapM (slot? (setFields slots)) = some (part.map Prod.snd) := by
    induction part with
    | nil => rfl
    | cons slot part ih =>
      obtain ⟨hslot, hrest⟩ := List.forall_mem_cons.1 hpart
      rw [List.map_cons, List.mapM_cons, slot?_setFields hnodup hslot, ih hrest]
      rfl
  rw [ofSlots, slots?, if_pos named]
  exact found slots fun _ h => h

/-- What is written for a value that may be unset reads as that value. -/
theorem optional?_map {read? : Json → Option α} {write : α → Json} {value : Option α}
    (h : ∀ a, value = some a → write a ≠ .null ∧ read? (write a) = some a) :
    optional? read? (value.map write) = some value := by
  cases value with
  | none => rfl
  | some a =>
    obtain ⟨hnull, hread⟩ := h a rfl
    rw [Option.map_some, optional?, hread]
    · rfl
    · exact hnull

/-- A finite number is written as a number and read as the same one. -/
theorem double?_double {x : Double} (h : x.isFinite = true) : double? (.double x) = some x := by
  rw [double, if_pos h]
  rfl

/-- No finite number is written as null, so a number that is set is not taken for one that is unset.
-/
theorem double_ne_null {x : Double} (h : x.isFinite = true) : Json.double x ≠ .null := by
  rw [double, if_pos h]
  nofun

/-- A number of games is read as it is written. -/
theorem count?_nat (n : UInt32) : count? (.nat n.toNat) = some n := by
  rw [nat, count?, if_pos n.toNat_lt, UInt32.ofNat_toNat]

end Json
end GuildRating
