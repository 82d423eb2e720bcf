/-
# Where the errors of the scanner point

The scanner refuses a character that begins no lexeme, a number whose point no digit follows or
that is too large, and the point that a name runs into.  Its error names what is refused, and the
place where that stands in the text (`scanFrom_points`).
-/

import GuildRating.Proofs.Scan.Longest

namespace GuildRating
namespace Formula

variable {pos : Nat} {c : Char} {rest text : List Char}

/-- What the error of a text whose first character stands at `pos` names, stands at its place. -/
def ScanError.PointsFrom (pos : Nat) (text : List Char) : ScanError → Prop
  | .unexpectedCharacter place c => ∃ k, place = pos + k ∧ text[k]? = some c
  | .invalidNumber place literal =>
    ∃ k, place = pos + k ∧ literal ≠ "" ∧ literal.toList <+: text.drop k
  | .tooLong _ _ => False

/-- An error that points into the rest of a text points into the text. -/
theorem ScanError.PointsFrom.of_drop {e : ScanError} (n : Nat)
    (h : e.PointsFrom (pos + n) (text.drop n)) : e.PointsFrom pos text := by
  cases e with
  | unexpectedCharacter place c =>
    obtain ⟨k, hplace, hc⟩ := h
    rw [List.getElem?_drop] at hc
    exact ⟨n + k, by omega, hc⟩
  | invalidNumber place literal =>
    obtain ⟨k, hplace, hne, hliteral⟩ := h
    rw [List.drop_drop] at hliteral
    exact ⟨n + k, by omega, hne, hliteral⟩
  | tooLong length limit => exact h

/-- A name is refused for the point that it runs into. -/
theorem getElem?_of_nameLength {n : Nat} (h : nameLength rest = .error n) :
    rest[n]? = some '.' := by
  induction rest generalizing n with
  | nil => cases h
  | cons d rest ih =>
    have step (h : nameLength.further (nameLength rest) = .error n) :
        (d :: rest)[n]? = some '.' := by
      cases hrest : nameLength rest with
      | ok m =>
        rw [hrest] at h
        cases h
      | error m =>
        rw [hrest] at h
        cases h
        exact ih hrest
    rw [nameLength_cons] at h
    split at h
    · exact step h
    · split at h
      · next hpoint =>
        split at h
        · exact step h
        · cases h
          rw [hpoint]
          rfl
      · cases h

/-- A number that is refused is named with its literal, at the place where that begins. -/
theorem numberOf_points {literal whole fraction : List Char} (hne : literal ≠ [])
    (hstarts : literal <+: text) :
    StopsWith (ScanError.PointsFrom pos text) (numberOf pos literal whole fraction) := by
  rw [numberOf]
  split
  · exact .ok _
  · exact .error ⟨0, rfl, by simpa using hne, by simpa using hstarts⟩

/-- A number is refused with the characters that it starts with. -/
theorem numberAt_points (pos : Nat) (hc : startsNumeral c = true) :
    StopsWith (ScanError.PointsFrom pos (c :: rest)) (numberAt pos (c :: rest)) := by
  obtain ⟨whole, after, hsplit, htext, hwhole, hafter⟩ := splitDigits_spec (c :: rest)
  by_cases hpoint : after.head? = some '.'
  · obtain ⟨tail, rfl⟩ := List.head?_eq_some_iff.1 hpoint
    obtain ⟨fraction, after', hsplit', rfl, -, -⟩ := splitDigits_spec tail
    have hstarts : whole ++ '.' :: fraction <+: c :: rest := ⟨after', by rw [htext]; simp⟩
    rw [numberAt_point (by rw [hsplit]), hsplit, hsplit']
    dsimp only
    split
    · exact .error ⟨0, rfl, by simp, by simpa using hstarts⟩
    · exact numberOf_points (by simp) hstarts
  · rw [numberAt_whole (by rw [hsplit]; exact hpoint), hsplit]
    refine numberOf_points ?_ ⟨after, htext.symm⟩
    rintro rfl
    -- without digits in front the first character is the point
    rw [List.nil_append] at htext
    rw [← htext] at hpoint hafter
    rw [startsNumeral, Bool.or_eq_true, decide_eq_true_eq] at hc
    rcases hc with hdigit | rfl
    · simp [hdigit] at hafter
    · exact hpoint rfl

/-- A lexeme that is refused is named at its place. -/
theorem lexemeAt_points (pos : Nat) (c : Char) (rest : List Char) :
    StopsWith (ScanError.PointsFrom pos (c :: rest)) (lexemeAt pos c rest) := by
  rw [lexemeAt_eq]
  split
  · next hc => exact numberAt_points pos hc
  · split
    · rw [nameAt]
      split
      · exact .ok _
      · next n hn =>
        refine .error ⟨n + 1, by omega, ?_⟩
        rw [List.getElem?_cons_succ]
        exact getElem?_of_nameLength hn
    · split
      · exact .ok _
      · exact .error ⟨0, rfl, rfl⟩

/-- **The scanner points at what it refuses.** -/
theorem scanFrom_points (pos : Nat) (text : List Char) :
    StopsWith (ScanError.PointsFrom pos text) (scanFrom pos text) := by
  match text with
  | [] =>
    rw [scanFrom_nil]
    exact .ok _
  | c :: rest =>
    cases hblank : Text.isBlank c with
    | true =>
      rw [scanFrom_blank hblank]
      exact (scanFrom_points (pos + 1) rest).imp fun _ he => .of_drop 1 he
    | false =>
      rw [scanFrom_lexeme hblank]
      refine (lexemeAt_points pos c rest).bind fun first _ => ?_
      have later := scanFrom_points (pos + 1 + first.2) (rest.drop first.2)
      exact (later.imp fun _ he => .of_drop 1 (.of_drop first.2 he)).bind fun _ _ => .ok _
termination_by text.length
decreasing_by all_goals simp; try omega

end Formula
end GuildRating
