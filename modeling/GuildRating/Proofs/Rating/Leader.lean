/-
# The leader of an ascendancy rating

The leader is the first playlist, in the order of the playlists, whose current rating is at least
that of every other.  An ascendancy rating finds it by one pass that goes over to a playlist only if
its current rating is higher: what has been seen so far is then led by the first of its highest
(`IsFirstHighest.step`), and so are all playlists in the end (`leading_eq`).  So an ascendancy
rating blends the two ratings of the leader and looks at nothing else (`ascendancy_blends_leader`).
-/

import GuildRating.Proofs.Config.Checked
import GuildRating.Proofs.Double.Order

namespace GuildRating

/-- Weights by which an ascendancy rating can be worked out. -/
structure AscendancyWeights.Valid (weights : AscendancyWeights) : Prop where
  current : Quantity.isWeight weights.current = true
  peak : Quantity.isWeight weights.peak = true
  sum : (weights.current + weights.peak).isZero = false

/-- The check of a configuration lets exactly these weights through. -/
theorem Config.check_eq_ok_iff_valid {config : Config} (h : config.algorithm = .ascendancy) :
    config.check = .ok () ↔ config.blend.Valid := by
  rw [check_ascendancy h]
  constructor
  · intro hcheck
    split_ifs at hcheck with hcurrent hpeak hsum
    exact ⟨by simpa using hcurrent, by simpa using hpeak, by simpa using hsum⟩
  · rintro ⟨hcurrent, hpeak, hsum⟩
    simp [hcurrent, hpeak, hsum]

namespace Player

variable {player : Player} {p : Playlist}

/-- The current rating in a playlist. -/
def current (player : Player) (p : Playlist) : Double := (player.standings.get p).current

/-- The current rating is at least that in every playlist. -/
def tops (player : Player) (p : Playlist) : Bool :=
  Playlist.all.all fun q => (player.current q).lessEq (player.current p)

/-- The first playlist whose current rating is at least that in every playlist. -/
def leader? (player : Player) : Option Playlist := Playlist.all.find? player.tops

/-- Where the current rating lies on the number line; anywhere if it is no number. -/
def place (player : Player) (p : Playlist) : Int := (player.current p).position.getD 0

/-- A rating that is a number has a place on the number line. -/
theorem position_current (h : (player.current p).isNaN = false) :
    (player.current p).position = some (player.place p) := by
  obtain ⟨a, ha⟩ := Double.isNaN_eq_false_iff.1 h
  rw [place, ha]
  rfl

section

variable (h : ∀ p, (player.current p).isNaN = false)
include h

/-- Of ratings that are numbers, the lower one has the lower place. -/
theorem less_current (p q : Playlist) :
    (player.current p).less (player.current q) = decide (player.place p < player.place q) := by
  rw [Double.less, position_current (h p), position_current (h q)]

/-- A playlist tops all if none has a higher place. -/
theorem tops_iff (p : Playlist) : player.tops p = true ↔ ∀ q, player.place q ≤ player.place p := by
  rw [tops, List.all_eq_true]
  constructor
  · intro htops q
    have hq := htops q (Playlist.mem_all q)
    rw [Double.lessEq, position_current (h q), position_current (h p)] at hq
    exact of_decide_eq_true hq
  · intro hplace q _
    rw [Double.lessEq, position_current (h q), position_current (h p)]
    exact decide_eq_true (hplace q)

end

end Player

namespace Rating

variable {player : Player} {best p : Playlist} {seen : List Playlist}

/-- Of what has been seen, `best` is the first with the highest current rating: what comes before it
is lower and what comes after it is not higher. -/
def IsFirstHighest (player : Player) (seen : List Playlist) (best : Playlist) : Prop :=
  ∃ before after, seen = before ++ best :: after ∧
    (∀ q ∈ before, player.place q < player.place best) ∧
    ∀ q ∈ after, player.place q ≤ player.place best

/-- **A pass goes over to a playlist only if it is higher.** -/
theorem IsFirstHighest.step (h : IsFirstHighest player seen best) (p : Playlist) :
    IsFirstHighest player (seen ++ [p])
      (if player.place best < player.place p then p else best) := by
  obtain ⟨before, after, rfl, hbefore, hafter⟩ := h
  split
  · next higher =>
    refine ⟨before ++ best :: after, [], rfl, ?_, List.forall_mem_nil _⟩
    rw [List.forall_mem_append, List.forall_mem_cons]
    refine ⟨fun q hq => ?_, higher, fun q hq => ?_⟩
    · have := hbefore q hq
      omega
    · have := hafter q hq
      omega
  · next lower =>
    refine ⟨before, after ++ [p], by simp, hbefore, ?_⟩
    rw [List.forall_mem_append, List.forall_mem_singleton]
    exact ⟨hafter, by omega⟩

/-- A whole pass ends with the first of the highest of all it has gone over. -/
theorem IsFirstHighest.run (h : IsFirstHighest player seen best) (rest : List Playlist) :
    IsFirstHighest player (seen ++ rest)
      (rest.foldl (fun best p => if player.place best < player.place p then p else best) best) := by
  induction rest generalizing seen best with
  | nil => simpa using h
  | cons p rest ih =>
    have stepped := ih (h.step p)
    rwa [List.append_assoc, List.singleton_append] at stepped

/-- The first of the highest is the leader. -/
theorem IsFirstHighest.leader?_eq (hnumbers : ∀ p, (player.current p).isNaN = false)
    (h : IsFirstHighest player Playlist.all best) : player.leader? = some best := by
  obtain ⟨before, after, hall, hbefore, hafter⟩ := h
  have highest (q : Playlist) : player.place q ≤ player.place best := by
    have hq : q ∈ before ++ best :: after := hall ▸ Playlist.mem_all q
    rcases List.mem_append.1 hq with hq | hq
    · exact (hbefore q hq).le
    · rcases List.mem_cons.1 hq with rfl | hq
      · exact le_rfl
      · exact hafter q hq
  rw [Player.leader?, List.find?_eq_some_iff_append]
  refine ⟨(Player.tops_iff hnumbers best).2 highest, before, after, hall, fun q hq => ?_⟩
  rw [Bool.not_eq_true', Bool.eq_false_iff, ne_eq, Player.tops_iff hnumbers]
  intro htops
  exact absurd (htops best) (not_le.2 (hbefore q hq))

/-- The pass over the standings, told by their playlists. -/
theorem leading_eq_get (h : ∀ p, (player.current p).isNaN = false) :
    leading player = player.standings.get
      ([.twos, .threes, .fours].foldl
        (fun best p => if player.place best < player.place p then p else best) .ones) := by
  have standings : [player.standings.twos, player.standings.threes, player.standings.fours] =
      [Playlist.twos, .threes, .fours].map player.standings.get := rfl
  have first : player.standings.ones = player.standings.get .ones := rfl
  rw [leading, standings, first, List.foldl_map]
  refine List.foldl_hom player.standings.get fun best p => ?_
  have higher : (player.standings.get best).current.less (player.standings.get p).current =
      decide (player.place best < player.place p) := Player.less_current h best p
  rw [higher]
  simp only [decide_eq_true_eq]
  split <;> rfl

/-- **What an ascendancy rating blends is the standing in the leading playlist.** -/
theorem leading_eq (h : ∀ p, (player.current p).isNaN = false) :
    ∃ p, player.leader? = some p ∧ leading player = player.standings.get p := by
  have start : IsFirstHighest player [.ones] .ones :=
    ⟨[], [], rfl, List.forall_mem_nil _, List.forall_mem_nil _⟩
  exact ⟨_, (start.run [.twos, .threes, .fours]).leader?_eq h, leading_eq_get h⟩

/-- A rating that is no number is at no place, so then no playlist leads. -/
theorem not_isNaN_of_leader? (h : player.leader? = some p) (q : Playlist) :
    (player.current q).isNaN = false := by
  have htops := List.find?_some h
  rw [Player.tops, List.all_eq_true] at htops
  obtain ⟨a, -, ha, -⟩ := Double.lessEq_iff.1 (htops q (Playlist.mem_all q))
  exact Double.isNaN_eq_false_iff.2 ⟨a, ha⟩

/-- The standing that the pass ends with is that of the leader. -/
theorem leading_of_leader? (h : player.leader? = some p) :
    leading player = player.standings.get p := by
  obtain ⟨q, hq, hleading⟩ := leading_eq (not_isNaN_of_leader? h)
  obtain rfl := Option.some.inj (h.symm.trans hq)
  exact hleading

/-- The blend of the two ratings in a playlist. -/
def blendOf (weights : AscendancyWeights) (standing : Standing) : Double :=
  weights.current * standing.current + weights.peak * standing.peak

/-- An ascendancy rating is the blend of the leader's two ratings, if that is finite. -/
theorem ascendancy_of_leader? {weights : AscendancyWeights} (hweights : weights.Valid)
    (h : player.leader? = some p) :
    ascendancy weights player = finite (blendOf weights (player.standings.get p)) := by
  rw [Config.ascendancy_of_weights hweights.current hweights.peak, hweights.sum,
    if_neg Bool.false_ne_true, leading_of_leader? h, blendOf]

/-- **An ascendancy rating blends the ratings of the leader and of no other playlist.**  With valid
weights

* a player whose current ratings are numbers has a leader, and the rating is the blend of the
  leader's current and peak rating, if that is finite, and otherwise there is none;
* two players whose leaders have the same standing have the same rating, whatever their games, their
  other standings and their leaders are.

The check of a configuration lets exactly the valid weights through, and its players are rated with
its own weights. -/
theorem ascendancy_blends_leader {weights : AscendancyWeights} (hweights : weights.Valid) :
    (∀ player : Player, (∀ p, (player.current p).isNaN = false) →
      ∃ p, player.leader? = some p ∧
        ascendancy weights player =
          if (blendOf weights (player.standings.get p)).isFinite = true then
            .ok (blendOf weights (player.standings.get p))
          else .error .notFinite) ∧
    (∀ (player player' : Player) (p p' : Playlist), player.leader? = some p →
      player'.leader? = some p' → player.standings.get p = player'.standings.get p' →
      ascendancy weights player = ascendancy weights player') ∧
    ∀ config : Config, config.algorithm = .ascendancy →
      (config.check = .ok () ↔ config.blend.Valid) ∧
      (config.blend = weights → ∀ player, rate config player = ascendancy weights player) := by
  refine ⟨?_, ?_, ?_⟩
  · intro player hnumbers
    obtain ⟨p, hp, -⟩ := leading_eq hnumbers
    exact ⟨p, hp, ascendancy_of_leader? hweights hp⟩
  · intro player player' p p' hp hp' same
    rw [ascendancy_of_leader? hweights hp, ascendancy_of_leader? hweights hp', same]
  · intro config hascendancy
    refine ⟨Config.check_eq_ok_iff_valid hascendancy, ?_⟩
    rintro rfl player
    exact Config.rate_ascendancy hascendancy player

/-- A player without games who is equally good in twos and threes.  The peaks are higher in the
playlists that do not lead. -/
def tied : Player where
  standings := ⟨⟨.ofNat 900, .ofNat 2000⟩, ⟨.ofNat 1000, .ofNat 1400⟩,
    ⟨.ofNat 1000, .infinity false⟩, ⟨.infinity true, .nan⟩⟩
  games := .const 0

/-- A player who leads with the same standing in ones. -/
def leadingInOnes : Player where
  standings := ⟨⟨.ofNat 1000, .ofNat 1400⟩, ⟨.ofNat 1000, .ofNat 1500⟩, ⟨0, 0⟩, ⟨0, 0⟩⟩
  games := ⟨0, 7, 0, 3⟩

/-- Twos leads for the first player, and with a quarter for the current rating and the rest for the
peak both are rated 1300. -/
theorem ascendancy_blends_leader_tied :
    tied.leader? = some .twos ∧
    rate (.byAscendancy none) tied = .ok (.ofNat 1300) ∧
    rate (.byAscendancy none) leadingInOnes = .ok (.ofNat 1300) := by
  have valid : AscendancyWeights.standard.Valid :=
    ⟨by decide +kernel, by decide +kernel, by decide +kernel⟩
  obtain ⟨blend, same, rated⟩ := ascendancy_blends_leader valid
  obtain ⟨-, rated⟩ := rated (.byAscendancy none) rfl
  have leader : tied.leader? = some .twos := by decide +kernel
  have leader' : leadingInOnes.leader? = some .ones := by decide +kernel
  have first : ascendancy .standard tied = .ok (.ofNat 1300) := by
    obtain ⟨p, hp, hblend⟩ := blend tied (not_isNaN_of_leader? leader)
    obtain rfl := Option.some.inj (leader.symm.trans hp)
    have value : blendOf .standard (tied.standings.get .twos) = .ofNat 1300 := by decide +kernel
    rw [hblend, value, if_pos (by decide +kernel)]
  have standing : leadingInOnes.standings.get .ones = tied.standings.get .twos := by
    simp only [leadingInOnes, tied, PerPlaylist.get]
  refine ⟨leader, ?_, ?_⟩
  · rw [rated rfl, first]
  · rw [rated rfl, same leadingInOnes tied _ _ leader' leader standing, first]

end Rating
end GuildRating
