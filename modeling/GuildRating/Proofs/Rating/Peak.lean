/-
# The peak rating is a maximum

A peak rating goes once over the peaks of the playlists that were played and keeps the highest in
the total order, of equal ones the last (`IsHighest.step`).  So it is the peak of a playlist that
was played, and none that was played has a higher one (`peakRating_cases`).  All else follows from
this, such as that a rating never goes down when peaks go up or more playlists are played
(`peakRating_mono`).  In the total order infinity and NaN, which has no sign here, stand above all
finite numbers.
-/

import GuildRating.Proofs.Config.Checked
import GuildRating.Proofs.Double.Order
import GuildRating.Proofs.Evaluation.Finite

namespace GuildRating

namespace Player

variable {player : Player} {p : Playlist}

/-- The highest rating so far in a playlist. -/
def peak (player : Player) (p : Playlist) : Double := (player.standings.get p).peak

/-- The playlist was played at all. -/
def Played (player : Player) (p : Playlist) : Prop := 0 < player.games.get p

instance (player : Player) : DecidablePred player.Played := fun p =>
  inferInstanceAs (Decidable (0 < player.games.get p))

theorem played_iff : player.Played p ↔ player.games.get p ≠ 0 := UInt32.pos_iff_ne_zero

/-- The peaks of the playlists that were played, in their order. -/
def peaks (player : Player) : List Double := (Playlist.all.filter player.Played).map player.peak

/-- A peak is one of a playlist that was played. -/
theorem mem_peaks {x : Double} :
    x ∈ player.peaks ↔ ∃ p, player.Played p ∧ player.peak p = x := by
  simp [peaks, Playlist.mem_all]

end Player

namespace Rating

variable {player player' : Player} {seen : List Double} {best rating : Double}

/-- The value is among those that have been seen, and none of them is above it. -/
structure IsHighest (seen : List Double) (best : Double) : Prop where
  mem : best ∈ seen
  atMost : ∀ x ∈ seen, x.atMost best = true

/-- **The higher one of a new value and the highest so far is the highest.** -/
theorem IsHighest.step (h : IsHighest seen best) (x : Double) :
    IsHighest (seen ++ [x]) (if best.atMost x then x else best) := by
  split
  · next higher =>
    refine ⟨List.mem_append_right _ List.mem_cons_self, ?_⟩
    rw [List.forall_mem_append, List.forall_mem_singleton]
    exact ⟨fun y hy => Double.atMost_trans (h.atMost y hy) higher, x.atMost_refl⟩
  · next lower =>
    refine ⟨List.mem_append_left _ h.mem, ?_⟩
    rw [List.forall_mem_append, List.forall_mem_singleton]
    exact ⟨h.atMost, Double.atMost_of_not lower⟩

/-- A whole pass ends with the highest of all it has gone over. -/
theorem IsHighest.run (h : IsHighest seen best) (rest : List Double) :
    IsHighest (seen ++ rest)
      (rest.foldl (fun best x => if best.atMost x then x else best) best) := by
  induction rest generalizing seen best with
  | nil => simpa using h
  | cons x rest ih =>
    have stepped := ih (h.step x)
    rwa [List.append_assoc, List.singleton_append] at stepped

/-- A peak rating looks at the peaks of the playlists that were played and at nothing else. -/
theorem peakRating_eq (player : Player) :
    peakRating player =
      match player.peaks with
      | [] => .error .noData
      | first :: rest =>
        finite (rest.foldl (fun best x => if best.atMost x then x else best) first) := rfl

/-- **A peak rating is the highest peak of the playlists that were played.** -/
theorem peakRating_cases (player : Player) :
    (∀ p, ¬ player.Played p) ∧ peakRating player = .error .noData ∨
      ∃ p, player.Played p ∧
        (∀ q, player.Played q → (player.peak q).atMost (player.peak p) = true) ∧
        peakRating player = finite (player.peak p) := by
  rw [peakRating_eq]
  cases hpeaks : player.peaks with
  | nil =>
    refine .inl ⟨fun p hp => ?_, rfl⟩
    have hmem : player.peak p ∈ player.peaks := Player.mem_peaks.2 ⟨p, hp, rfl⟩
    rw [hpeaks] at hmem
    cases hmem
  | cons first rest =>
    have start : IsHighest [first] first :=
      ⟨List.mem_cons_self, fun x hx => List.mem_singleton.1 hx ▸ first.atMost_refl⟩
    have highest := start.run rest
    rw [List.singleton_append, ← hpeaks] at highest
    obtain ⟨p, hp, hpeak⟩ := Player.mem_peaks.1 highest.mem
    refine .inr ⟨p, hp, fun q hq => ?_, by rw [hpeak]⟩
    rw [hpeak]
    exact highest.atMost _ (Player.mem_peaks.2 ⟨q, hq, rfl⟩)

/-- There is no data if no playlist was played. -/
theorem peakRating_eq_noData_iff :
    peakRating player = .error .noData ↔ ∀ p, player.games.get p = 0 := by
  rcases peakRating_cases player with ⟨hnone, hrating⟩ | ⟨p, hp, -, hrating⟩
  · refine iff_of_true hrating fun p => ?_
    have := hnone p
    rwa [Player.played_iff, ne_eq, Decidable.not_not] at this
  · refine iff_of_false ?_ fun hzero => Player.played_iff.1 hp (hzero p)
    rw [hrating, finite_eq_error_iff]
    simp

/-- Players who have played the same playlists with the same peaks have the same rating. -/
theorem peakRating_congr (hplayed : ∀ p, player.Played p ↔ player'.Played p)
    (hpeaks : ∀ p, player.Played p → player.peak p = player'.peak p) :
    peakRating player = peakRating player' := by
  have playlists : Playlist.all.filter player.Played = Playlist.all.filter player'.Played :=
    List.filter_congr fun p _ => decide_eq_decide.2 (hplayed p)
  have peaks : player.peaks = player'.peaks := by
    rw [Player.peaks, Player.peaks, ← playlists]
    exact List.map_congr_left fun p hp => hpeaks p (of_decide_eq_true (List.mem_filter.1 hp).2)
  rw [peakRating_eq, peakRating_eq, peaks]

/-- **A peak rating never goes down** when playlists that were played stay so and their peaks do not
go down. -/
theorem peakRating_mono (hfinite : ∀ p, player'.Played p → (player'.peak p).isFinite = true)
    (h : ∀ p, player.Played p →
      player'.Played p ∧ (player.peak p).lessEq (player'.peak p) = true)
    (hrating : peakRating player = .ok rating) :
    ∃ rating', peakRating player' = .ok rating' ∧ rating.lessEq rating' = true := by
  rcases peakRating_cases player with ⟨-, hnone⟩ | ⟨p, hp, -, hsome⟩
  · rw [hrating] at hnone
    cases hnone
  obtain ⟨rfl, -⟩ := finite_eq_ok_iff.1 (hsome.symm.trans hrating)
  obtain ⟨hp', hraised⟩ := h p hp
  rcases peakRating_cases player' with ⟨hnone, -⟩ | ⟨q, hq, hhighest, hsome⟩
  · exact absurd hp' (hnone p)
  have above : (player'.peak p).lessEq (player'.peak q) = true :=
    Double.lessEq_of_atMost (Double.isNaN_of_isFinite (hfinite p hp'))
      (Double.isNaN_of_isFinite (hfinite q hq)) (hhighest p hp')
  exact ⟨player'.peak q, hsome.trans (finite_eq_ok_iff.2 ⟨rfl, hfinite q hq⟩),
    Double.lessEq_trans hraised above⟩

/-- One peak of infinity or NaN is above all that are finite, and the rating is refused. -/
theorem peakRating_of_infinite {p : Playlist} (hp : player.Played p)
    (h : player.peak p = .infinity false ∨ player.peak p = .nan) :
    peakRating player = .error .notFinite := by
  rcases peakRating_cases player with ⟨hnone, -⟩ | ⟨q, -, hhighest, hrating⟩
  · exact absurd hp (hnone p)
  · have infinite := Double.isFinite_eq_false_of_atMost h (hhighest p hp)
    exact hrating.trans (finite_eq_error_iff.2 ⟨rfl, infinite⟩)

/-- **A peak rating is the monotone maximum over the playlists that were played.**

* If the peaks of the playlists that were played are finite, there is no rating exactly for a player
  without any games, and else the rating is the peak of a playlist that was played and no such
  playlist has a larger one.
* The rating depends on nothing but which playlists were played and on their peaks.
* When peaks go up to finite values or further playlists are played, a rating stays a rating and
  does not go down.
* When a peak in a playlist that was played is infinity or NaN there is no finite rating.

By this rating are rated all players under a configuration that chooses it. -/
theorem peak_rating_is_monotone_maximum :
    (∀ player : Player, (∀ p, player.Played p → (player.peak p).isFinite = true) →
      (peakRating player = .error .noData ↔ ∀ p, player.games.get p = 0) ∧
      ((∃ p, player.games.get p ≠ 0) → ∃ p, player.Played p ∧
        peakRating player = .ok (player.peak p) ∧
        ∀ q, player.Played q → (player.peak q).atMost (player.peak p) = true ∧
          (player.peak p).less (player.peak q) = false)) ∧
    (∀ player player' : Player, (∀ p, player.Played p ↔ player'.Played p) →
      (∀ p, player.Played p → player.peak p = player'.peak p) →
      peakRating player = peakRating player') ∧
    (∀ player player' : Player, (∀ p, player'.Played p → (player'.peak p).isFinite = true) →
      (∀ p, player.Played p →
        player'.Played p ∧ (player.peak p).lessEq (player'.peak p) = true) →
      ∀ rating, peakRating player = .ok rating →
        ∃ rating', peakRating player' = .ok rating' ∧ rating.lessEq rating' = true) ∧
    (∀ (player : Player) (p : Playlist), player.Played p →
      player.peak p = .infinity false ∨ player.peak p = .nan →
      peakRating player = .error .notFinite) ∧
    ∀ config : Config, config.algorithm = .peakMmr →
      ∀ player, rate config player = peakRating player := by
  refine ⟨?_, ?_, ?_, ?_, ?_⟩
  · intro player hfinite
    refine ⟨peakRating_eq_noData_iff, ?_⟩
    rintro ⟨p, hgames⟩
    rcases peakRating_cases player with ⟨hnone, -⟩ | ⟨best, hbest, hhighest, hrating⟩
    · exact absurd (Player.played_iff.2 hgames) (hnone p)
    · refine ⟨best, hbest, hrating.trans (finite_eq_ok_iff.2 ⟨rfl, hfinite best hbest⟩), ?_⟩
      intro q hq
      have numbers := Double.lessEq_of_atMost (Double.isNaN_of_isFinite (hfinite q hq))
        (Double.isNaN_of_isFinite (hfinite best hbest)) (hhighest q hq)
      exact ⟨hhighest q hq, Double.less_eq_false_of_lessEq numbers⟩
  · exact fun _ _ => peakRating_congr
  · exact fun _ _ hfinite h _ => peakRating_mono hfinite h
  · exact fun _ _ => peakRating_of_infinite
  · intro config hpeak player
    have builtIn : config.algorithm ≠ .custom := by rw [hpeak]; decide
    rw [rate_builtIn builtIn, Rating.builtIn, hpeak]

/-- A player of twos and fours with peaks of 1400 and 1500, and a higher one in threes, which was
not played. -/
def playingTwosAndFours : Player where
  standings := ⟨⟨0, .nan⟩, ⟨0, .ofNat 1400⟩, ⟨0, .ofNat 2600⟩, ⟨0, .ofNat 1500⟩⟩
  games := ⟨0, 3, 0, 1⟩

/-- The same player with threes played as well. -/
def playingThreesToo : Player := ⟨playingTwosAndFours.standings, ⟨0, 3, 8, 1⟩⟩

/-- A player of the same playlists with another peak in threes and other numbers of games. -/
def otherwiseAlike : Player :=
  ⟨playingTwosAndFours.standings.set .threes ⟨0, .infinity true⟩, ⟨0, 1, 0, 9⟩⟩

/-- The rating is 1500.  With threes played it is no less, and as long as only twos and fours are
played the peak in threes is no matter.  If ones is played, where the peak is no number, there is no
rating, and without any games there is none. -/
theorem peak_rating_is_monotone_maximum_twosAndFours :
    rate .byPeak playingTwosAndFours = .ok (.ofNat 1500) ∧
    (∃ rating, peakRating playingThreesToo = .ok rating ∧
      (Double.ofNat 1500).lessEq rating = true) ∧
    peakRating otherwiseAlike = .ok (.ofNat 1500) ∧
    peakRating ⟨playingTwosAndFours.standings, ⟨2, 3, 0, 1⟩⟩ = .error .notFinite ∧
    peakRating ⟨playingTwosAndFours.standings, .const 0⟩ = .error .noData := by
  obtain ⟨maximum, same, mono, infinite, rated⟩ := peak_rating_is_monotone_maximum
  have rating : peakRating playingTwosAndFours = .ok (.ofNat 1500) := by decide +kernel
  have grown : ∀ p ∈ Playlist.all,
      (playingThreesToo.Played p → (playingThreesToo.peak p).isFinite = true) ∧
      (playingTwosAndFours.Played p → playingThreesToo.Played p ∧
        (playingTwosAndFours.peak p).lessEq (playingThreesToo.peak p) = true) := by decide +kernel
  have alike : ∀ p ∈ Playlist.all,
      (otherwiseAlike.Played p ↔ playingTwosAndFours.Played p) ∧
      (otherwiseAlike.Played p → otherwiseAlike.peak p = playingTwosAndFours.peak p) := by
    decide +kernel
  refine ⟨?_, ?_, ?_, ?_, ?_⟩
  · rw [rated _ rfl, rating]
  · exact mono _ _ (fun p => (grown p p.mem_all).1) (fun p => (grown p p.mem_all).2) _ rating
  · exact (same _ _ (fun p => (alike p p.mem_all).1) fun p => (alike p p.mem_all).2).trans rating
  · exact infinite _ .ones (by decide) (.inr rfl)
  · refine (maximum _ fun p hp => ?_).1.2 fun p => PerPlaylist.get_const 0 p
    exact absurd (PerPlaylist.get_const 0 p) (Player.played_iff.1 hp)

end Rating
end GuildRating
