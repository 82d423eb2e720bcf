/-
# Remembering compiled formulas

A cache holds the formulas compiled under its limits by their normal form.  A text whose normal
form is known gets the formula that is there, whatever spelling that one was compiled from; a text
that does not compile leaves no trace.  Every compiled formula gets a serial number, so that two
answers can be told to be the same formula or only equal ones.
-/

import GuildRating.Formula.Basic

namespace GuildRating
namespace Formula

/-- A compiled formula as a cache holds it. -/
structure Entry where
  serial : Nat
  formula : Formula
deriving DecidableEq

/-- The formulas that were compiled under some limits since the cache was last cleared. -/
structure Cache where
  limits : Limits
  /-- The entries by normal form, the latest first. -/
  entries : List (String × Entry)
  /-- The serial number that the next formula will get. -/
  nextSerial : Nat
deriving DecidableEq

namespace Cache

/-- A cache that holds nothing and has given no serial number. -/
def empty (limits : Limits) : Cache := ⟨limits, [], 0⟩

/-- How many formulas are held. -/
def size (cache : Cache) : Nat := cache.entries.length

/-- The cache holds no formula. -/
def isEmpty (cache : Cache) : Bool := cache.size = 0

/-- The entry of a normal form. -/
def find? (cache : Cache) (key : String) : Option Entry := cache.entries.lookup key

/-- The cache with one more formula. -/
def insert (cache : Cache) (key : String) (formula : Formula) : Cache :=
  { cache with
    entries := (key, ⟨cache.nextSerial, formula⟩) :: cache.entries
    nextSerial := cache.nextSerial + 1 }

/-- The formula of a text, compiled only if its normal form is not known yet. -/
def get (cache : Cache) (source : String) : Except Error Entry × Cache :=
  let key := Text.collapse source
  match cache.find? key with
  | some entry => (.ok entry, cache)
  | none =>
    match compile cache.limits source with
    | .ok formula => (.ok ⟨cache.nextSerial, formula⟩, cache.insert key formula)
    | .error e => (.error e, cache)

/-- Forgets all formulas.  Serial numbers go on, so those handed out stay different. -/
def clear (cache : Cache) : Cache := { cache with entries := [] }

end Cache
end Formula
end GuildRating
