/-
# JSON values

A value as it is read from text or built to be written.  Numbers keep the form they were written
in: whole numbers that fit in 64 bits are kept apart from all others, because a count may be
written only as such.  Two things can be written that have no value: a number beyond the range of
doubles, and a string whose escapes leave half of a surrogate pair.  They are values here all the
same, as a reader that skips a field must not mind them.
-/

import GuildRating.Double.Arithmetic

namespace GuildRating

namespace Json

/-- A number as a reader takes it in: whole where that fits, and a double otherwise. -/
inductive Number where
  /-- A whole number below `2⁶⁴` written without point and exponent. -/
  | natural (n : Nat)
  /-- The negative of a positive whole number up to `2⁶³`, written without point and exponent. -/
  | negative (n : Nat)
  | double (x : Double)
  /-- A number too large for a double. -/
  | outOfRange
deriving DecidableEq

/-- The double that a number stands for, if it is in range. -/
def Number.toDouble? : Number → Option Double
  | natural n => some (.ofNat n)
  | negative n => some (-.ofNat n)
  | double x => some x
  | outOfRange => none

end Json

/-- A JSON value.  A string is `none` when its text has an unpaired surrogate, and so is a field's
name. -/
inductive Json where
  | null
  | bool (value : Bool)
  | number (value : Json.Number)
  | string (value : Option String)
  | array (items : List Json)
  | object (fields : List (Option String × Json))

namespace Json

/-- A sound string. -/
def text (s : String) : Json := .string (some s)

/-- A whole number. -/
def nat (n : Nat) : Json := .number (.natural n)

/-- A double.  One that is not finite is no JSON number, and null is written instead. -/
def double (x : Double) : Json := if x.isFinite then .number (.double x) else .null

/-- An object with the given fields in order. -/
def record (fields : List (String × Json)) : Json :=
  .object (fields.map fun field => (some field.1, field.2))

/-- A field that is written only when it is set. -/
def optional (name : String) (value : Option Json) : List (String × Json) :=
  match value with
  | some v => [(name, v)]
  | none => []

mutual

/-- Levels of arrays and objects: a scalar has none. -/
def nesting : Json → Nat
  | .array items => 1 + nestingItems items
  | .object fields => 1 + nestingFields fields
  | _ => 0

/-- The levels below the items of an array. -/
def nestingItems : List Json → Nat
  | [] => 0
  | item :: rest => max item.nesting (nestingItems rest)

/-- The levels below the fields of an object. -/
def nestingFields : List (Option String × Json) → Nat
  | [] => 0
  | (_, value) :: rest => max value.nesting (nestingFields rest)

end

mutual

/-- Every number in the value is in range and every string in it is a text. -/
def isSound : Json → Bool
  | .number value => value.toDouble?.isSome
  | .string value => value.isSome
  | .array items => areSound items
  | .object fields => fieldsAreSound fields
  | _ => true

/-- All items of an array are sound. -/
def areSound : List Json → Bool
  | [] => true
  | item :: rest => item.isSound && areSound rest

/-- All fields of an object are sound, their names included. -/
def fieldsAreSound : List (Option String × Json) → Bool
  | [] => true
  | (name, value) :: rest => name.isSome && value.isSound && fieldsAreSound rest

end

end Json
end GuildRating
