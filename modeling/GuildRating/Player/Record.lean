/-
# Players in JSON

A player is written with a standing and a count of games for each playlist.  When read, what is
missing counts as zero.
-/

import GuildRating.Json.Record
import GuildRating.Player.Basic

namespace GuildRating

namespace Standing

/-- Reads a standing; what is missing is zero. -/
def ofJson? (value : Json) : Option Standing := do
  let slots ← Json.slots? ["current", "peak"] value
  match slots with
  | [current, peak] =>
    return ⟨← Json.orElse 0 Json.double? current, ← Json.orElse 0 Json.double? peak⟩
  | _ => none

/-- Writes a standing. -/
def toJson (standing : Standing) : Json :=
  .record [("current", .double standing.current), ("peak", .double standing.peak)]

end Standing

namespace Player

/-- The fields of a player in their order. -/
def fieldNames : List String :=
  Playlist.all.map Playlist.name ++ Playlist.all.map fun p => p.name ++ "Games"

/-- Reads a player; playlists that are missing have no rating and no games. -/
def ofJson? (value : Json) : Option Player := do
  let slots ← Json.slots? fieldNames value
  let standing := Json.orElse ⟨0, 0⟩ Standing.ofJson?
  let games := Json.orElse 0 Json.count?
  match slots with
  | [ones, twos, threes, fours, onesGames, twosGames, threesGames, foursGames] =>
    let standings : PerPlaylist Standing :=
      ⟨← standing ones, ← standing twos, ← standing threes, ← standing fours⟩
    let counts : PerPlaylist UInt32 :=
      ⟨← games onesGames, ← games twosGames, ← games threesGames, ← games foursGames⟩
    return ⟨standings, counts⟩
  | _ => none

/-- Writes a player, the standings before the numbers of games. -/
def toJson (player : Player) : Json :=
  .record (Playlist.all.map (fun p => (p.name, (player.standings.get p).toJson)) ++
    Playlist.all.map fun p => (p.name ++ "Games", .nat (player.games.get p).toNat))

end Player
end GuildRating
