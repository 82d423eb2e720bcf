/-
# Rosters

A roster holds one thing for each id.  Ids stand in the order in which they first came; something
new for an id that is already there takes the place of the old.
-/

namespace GuildRating

/-- Entries by their ids, in order. -/
structure Roster (α : Type) where
  entries : List (String × α)
deriving DecidableEq

namespace Roster

variable {α : Type}

/-- The roster of nothing. -/
def empty : Roster α := ⟨[]⟩

/-- The ids in their order. -/
def ids (roster : Roster α) : List String := roster.entries.map (·.1)

/-- The values in the order of their ids. -/
def values (roster : Roster α) : List α := roster.entries.map (·.2)

/-- How many ids there are. -/
def size (roster : Roster α) : Nat := roster.entries.length

/-- There is something for the id. -/
def contains (roster : Roster α) (id : String) : Bool := roster.ids.contains id

/-- The roster with a value for an id. -/
def put (roster : Roster α) (id : String) (value : α) : Roster α :=
  if roster.contains id then
    ⟨roster.entries.map fun entry => if entry.1 = id then (id, value) else entry⟩
  else ⟨roster.entries ++ [(id, value)]⟩

/-- The ids that repeat an earlier one, in order. -/
def repeated (seen : List String) : List String → List String
  | [] => []
  | id :: rest => if seen.contains id then id :: repeated seen rest else repeated (id :: seen) rest

/-- The roster of a list, later entries replacing earlier ones. -/
def ofList (entries : List (String × α)) : Roster α :=
  entries.foldl (fun roster entry => roster.put entry.1 entry.2) empty

end Roster
end GuildRating
