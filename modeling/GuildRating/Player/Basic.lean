/-
# Players and playlists

Players are rated in four playlists, told apart by the size of a team.  `PerPlaylist` holds one
thing for each of them.  What is known of a player at the time of rating is a standing in each
playlist, that is the current and the highest rating so far, and the number of games played.
-/

import GuildRating.Double.Arithmetic

namespace GuildRating

/-- The playlists, by the size of a team. -/
inductive Playlist where
  | ones
  | twos
  | threes
  | fours
deriving DecidableEq, Repr

namespace Playlist

/-- All playlists in their order. -/
def all : List Playlist := [ones, twos, threes, fours]

/-- The name of a playlist, in formulas as in records. -/
def name : Playlist → String
  | ones => "ones"
  | twos => "twos"
  | threes => "threes"
  | fours => "fours"

/-- The playlist with a name. -/
def ofName? (name : String) : Option Playlist := all.find? fun p => p.name = name

/-- No playlist is left out of the list of all. -/
theorem mem_all (p : Playlist) : p ∈ all := by cases p <;> decide

end Playlist

/-- One value for each playlist. -/
structure PerPlaylist (α : Type) where
  ones : α
  twos : α
  threes : α
  fours : α
deriving DecidableEq, Repr

namespace PerPlaylist

variable {α β : Type}

/-- The value of a playlist. -/
def get (values : PerPlaylist α) : Playlist → α
  | .ones => values.ones
  | .twos => values.twos
  | .threes => values.threes
  | .fours => values.fours

/-- The same value everywhere. -/
def const (value : α) : PerPlaylist α := ⟨value, value, value, value⟩

/-- The values of a function, playlist by playlist. -/
def map (f : α → β) (values : PerPlaylist α) : PerPlaylist β :=
  ⟨f values.ones, f values.twos, f values.threes, f values.fours⟩

/-- The values with the one of a playlist replaced. -/
def set (values : PerPlaylist α) (p : Playlist) (value : α) : PerPlaylist α :=
  match p with
  | .ones => { values with ones := value }
  | .twos => { values with twos := value }
  | .threes => { values with threes := value }
  | .fours => { values with fours := value }

/-- The values in the order of the playlists. -/
def toList (values : PerPlaylist α) : List α := Playlist.all.map values.get

@[simp] theorem get_map (f : α → β) (values : PerPlaylist α) (p : Playlist) :
    (values.map f).get p = f (values.get p) := by
  cases p <;> rfl

/-- Taking a value after a function was applied is composition. -/
theorem get_map_eq_comp (f : α → β) (values : PerPlaylist α) :
    (values.map f).get = f ∘ values.get := funext (get_map f values)

@[simp] theorem get_set_self (values : PerPlaylist α) (p : Playlist) (value : α) :
    (values.set p value).get p = value := by
  cases p <;> rfl

/-- Replacing the value of one playlist leaves the others as they are. -/
theorem get_set_of_ne {p q : Playlist} (h : q ≠ p) (values : PerPlaylist α) (value : α) :
    (values.set p value).get q = values.get q := by
  cases p <;> cases q <;> first | rfl | exact absurd rfl h

@[simp] theorem get_const (value : α) (p : Playlist) : (const value).get p = value := by
  cases p <;> rfl

end PerPlaylist

/-- A player's current and highest rating in one playlist. -/
structure Standing where
  current : Double
  peak : Double
deriving DecidableEq

/-- What is known of a player: a standing and a number of games in each playlist. -/
structure Player where
  standings : PerPlaylist Standing
  games : PerPlaylist UInt32
deriving DecidableEq

namespace Player

/-- A player without ratings and games. -/
def blank : Player := ⟨.const ⟨0, 0⟩, .const 0⟩

/-- The games played in all playlists together. -/
def totalGames (player : Player) : Nat :=
  player.games.toList.foldl (fun total games => total + games.toNat) 0

/-- A typical active player, for trying a formula out. -/
def sample : Player where
  standings :=
    ⟨⟨.ofNat 1050, .ofNat 1180⟩, ⟨.ofNat 1320, .ofNat 1410⟩, ⟨.ofNat 1255, .ofNat 1300⟩,
      ⟨.ofNat 980, .ofNat 1020⟩⟩
  games := ⟨45, 210, 160, 12⟩

end Player

end GuildRating
