/-
# The shortest digits that read back

Among the decimals that read back as a given double, `Decimal.shortest` finds one with the
fewest digits, and of those the nearest.  It looks at the powers of ten from above: on the grid of
multiples of `10 ^ k` only the two neighbours of the value can be the nearest to it, and the
first grid on which one of them reads back holds the shortest decimals.  Every double has a
finite decimal expansion, so the search needs no answer beyond its last grid: there it gives the
value itself.
-/

import GuildRating.Decimal.Basic

namespace GuildRating
namespace Decimal

/-- Where a value halfway between two shortest decimals goes. -/
inductive Tie where
  | upward
  | toEven
deriving DecidableEq, Repr

/-- The value on the grid, `units / (unitsPerOne · 10 ^ exponent)`, as a quotient. -/
def onGrid (units : Nat) (exponent : Int) : Nat × Nat :=
  if 0 ≤ exponent then (units, Double.unitsPerOne * Nat.pow 10 exponent.natAbs)
  else (units * Nat.pow 10 exponent.natAbs, Double.unitsPerOne)

/-- The decimal reads back as the positive double of so many units. -/
def readsAs (units : Nat) (x : Decimal) : Bool :=
  match x.toDouble false with
  | .finite _ n _ => n = units
  | _ => false

/-- The nearest decimal on the grid of `10 ^ exponent` that reads back, if the grid has one. -/
def atExponent? (tie : Tie) (units : Nat) (exponent : Int) : Option Decimal :=
  let (num, den) := onGrid units exponent
  let low := num / den
  let twice := 2 * (num % den)
  let below : Decimal := ⟨low, exponent⟩
  let above : Decimal := ⟨low + 1, exponent⟩
  let upFirst := den < twice || (den = twice && (tie = .upward || low % 2 = 1))
  let (first, second) := if upFirst then (above, below) else (below, above)
  if readsAs units first then some first
  else if readsAs units second then some second
  else none

/-- The full decimal expansion of a magnitude. -/
def expansion (units : Nat) : Decimal := ⟨units * Nat.pow 5 1074, -1074⟩

/-- Searches the grids from `exponent` downwards. -/
def searchFrom (tie : Tie) (units : Nat) : (exponent : Int) → (grids : Nat) → Decimal
  | _, 0 => expansion units
  | exponent, grids + 1 =>
    match atExponent? tie units exponent with
    | some x => x
    | none => searchFrom tie units (exponent - 1) grids

/-- A power of ten above the magnitude: a factor of two is less than `0.30103` decimal places. -/
def topExponent (units : Nat) : Int :=
  Int.fdiv (((units.log2 : Int) + 1 - 1074) * 30103) 100000 + 1

/-- The shortest decimal that reads back as the double of so many units. -/
def shortest (tie : Tie) (units : Nat) : Decimal :=
  if units = 0 then ⟨0, 0⟩
  else
    let found := searchFrom tie units (topExponent units) 25
    trim found.digits found.exponent

end Decimal
end GuildRating
