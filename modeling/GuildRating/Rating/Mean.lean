/-
# The weighted mean of qualifying playlists

A playlist qualifies when enough games were played in it; the others are left out of the sum and
of the total weight.  Weights are divided by the largest qualifying one before they are added up,
so that a sum of huge weights does not overflow.

The mean is defined for any `Quantity`, which has what a mean asks of its numbers: zero, the
operations, an order and which of them are finite.  It runs on doubles, and on fractions it can be
compared with the mean that is meant.
-/

import GuildRating.Double.Order
import GuildRating.Player.Basic

namespace GuildRating

/-- Numbers that can be weighed. -/
class Quantity (α : Type) extends Zero α, Add α, Mul α, Div α where
  less : α → α → Bool
  isFinite : α → Bool

instance : Quantity Double where
  less := Double.less
  isFinite := Double.isFinite

namespace Quantity

variable {α : Type} [Quantity α]

/-- A weight must be finite and not below zero. -/
def isWeight (weight : α) : Bool := isFinite weight && !less weight 0

end Quantity

namespace Mean

variable {α : Type} [Quantity α]

/-- Why there is no mean. -/
inductive Error where
  /-- The first playlist whose weight is no weight. -/
  | badWeight (playlist : Playlist)
  | noneQualifies
deriving DecidableEq, Repr

/-- The larger of two numbers, the first if they are equal. -/
def larger (x y : α) : α := if Quantity.less x y then y else x

/-- Weights and values of the playlists whose games reach their threshold. -/
def qualifying (weights : PerPlaylist α) (minGames games : PerPlaylist UInt32)
    (values : PerPlaylist α) : List (α × α) :=
  (Playlist.all.filter fun p => minGames.get p ≤ games.get p).map fun p =>
    (weights.get p, values.get p)

/-- The mean of values with weights, none of which exceeds `largest`. -/
def ofPairs (largest : α) (pairs : List (α × α)) : α :=
  let (sum, total) := pairs.foldl (fun (sum, total) (weight, value) =>
    let scaled := weight / largest
    (sum + scaled * value, total + scaled)) ((0 : α), (0 : α))
  sum / total

/-- The first playlist whose weight is no weight. -/
def firstBad? (weights : PerPlaylist α) : Option Playlist :=
  Playlist.all.find? fun p => !Quantity.isWeight (weights.get p)

/-- The weighted mean over the qualifying playlists.  All weights are looked at first, also those
of playlists that do not qualify. -/
def weighted (weights : PerPlaylist α) (minGames games : PerPlaylist UInt32)
    (values : PerPlaylist α) : Except Error α :=
  match firstBad? weights with
  | some p => .error (.badWeight p)
  | none =>
    let pairs := qualifying weights minGames games values
    let largest := (pairs.map (·.1)).foldl larger 0
    if Quantity.less 0 largest then .ok (ofPairs largest pairs) else .error .noneQualifies

end Mean

end GuildRating
