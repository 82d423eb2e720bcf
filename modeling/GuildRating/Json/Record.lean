/-
# Reading structures from JSON

A structure with named fields may be written as an object or, in the order of its declaration, as
an array.  In an object, fields may stand in any order and unknown ones are skipped, but a known
field must not repeat.  In an array, fields at the end may be left out and nothing may follow the
last.  `Json.slots?` brings both forms to one: a slot for each declared field, empty when the
field is missing.  What an empty slot means is decided by `required`, `orElse` and `optional`.
-/

import GuildRating.Json.Value

namespace GuildRating
namespace Json

/-- The values of the fields with a name. -/
def valuesOf (name : String) (fields : List (Option String × Json)) : List Json :=
  (fields.filter fun field => field.1 = some name).map (·.2)

/-- The slot of a field; none if the field repeats. -/
def slot? (fields : List (Option String × Json)) (name : String) : Option (Option Json) :=
  match valuesOf name fields with
  | [] => some none
  | [value] => some (some value)
  | _ => none

/-- A slot for each name. -/
def slots? (names : List String) : Json → Option (List (Option Json))
  | .object fields =>
    if fields.all fun field => field.1.isSome then names.mapM (slot? fields) else none
  | .array items =>
    if items.length ≤ names.length then
      some (items.map some ++ List.replicate (names.length - items.length) none)
    else none
  | _ => none

variable {α : Type}

/-- A field that must be there. -/
def required (read? : Json → Option α) : Option Json → Option α
  | none => none
  | some value => read? value

/-- A field with a value of its own when it is missing. -/
def orElse (missing : α) (read? : Json → Option α) : Option Json → Option α
  | none => some missing
  | some value => read? value

/-- A field that may be unset: missing or null. -/
def optional? (read? : Json → Option α) : Option Json → Option (Option α)
  | none => some none
  | some .null => some none
  | some value => (read? value).map some

/-- Any number, as a double. -/
def double? : Json → Option Double
  | .number n => n.toDouble?
  | _ => none

/-- A whole number of 32 bits. -/
def count? : Json → Option UInt32
  | .number (.natural n) => if n < UInt32.size then some (UInt32.ofNat n) else none
  | _ => none

/-- The value is true or false. -/
def bool? : Json → Option Bool
  | .bool b => some b
  | _ => none

/-- The value is a sound string. -/
def text? : Json → Option String
  | .string s => s
  | _ => none

/-- A list, every item read in turn. -/
def list? (read? : Json → Option α) : Json → Option (List α)
  | .array items => items.mapM read?
  | _ => none

end Json
end GuildRating
