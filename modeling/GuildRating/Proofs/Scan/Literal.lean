/-
# Numbers read back

The text of a double that is finite and not negative is a literal (`isLiteral_text`): digits, or
digits on both sides of a point.  Its digits are those of the shortest decimal, moved to their
places, so scanning the text finds the same double.
-/

import GuildRating.Decimal.Style
import GuildRating.Proofs.Decimal.Shortest
import GuildRating.Proofs.Scan.Border

namespace GuildRating
namespace Formula

/-- All characters are digits. -/
def Digits (text : List Char) : Prop := ∀ c ∈ text, c.isDigit = true

/-- The text is a literal with these digits before its point and behind it. -/
inductive IsLiteral : (whole fraction text : List Char) → Prop
  | whole {whole : List Char} : whole ≠ [] → Digits whole → IsLiteral whole [] whole
  | point {whole fraction : List Char} : whole ≠ [] → fraction ≠ [] → Digits whole →
      Digits fraction → IsLiteral whole fraction (whole ++ '.' :: fraction)

variable {pos : Nat} {whole fraction text w rest : List Char}

/-- Digits are split off up to a character that is none. -/
theorem splitDigits_of_digits (h : Digits w) (hrest : rest.head?.all fun c => !c.isDigit) :
    Decimal.splitDigits (w ++ rest) = (w, rest) := by
  rw [Decimal.splitDigits, List.takeWhile_append_of_pos h, List.dropWhile_append_of_pos h]
  cases rest with
  | nil => simp
  | cons c rest =>
    have hc : c.isDigit = false := by simpa using hrest
    simp [hc]

/-- A literal is taken as one number. -/
theorem IsLiteral.numberAt (h : IsLiteral whole fraction text) :
    numberAt pos text = numberOf pos text whole fraction := by
  cases h with
  | whole hne hdigits =>
    have split := @splitDigits_of_digits whole [] hdigits rfl
    rw [List.append_nil] at split
    rw [numberAt_whole (by rw [split]; nofun), split]
  | point hne hne' hdigits hdigits' =>
    have split := @splitDigits_of_digits whole ('.' :: fraction) hdigits rfl
    have split' := @splitDigits_of_digits fraction [] hdigits' rfl
    rw [List.append_nil] at split'
    rw [numberAt_point (congrArg Prod.snd split), split, split']
    exact if_neg (by simpa using hne')

/-- A literal begins with a digit. -/
theorem IsLiteral.head (h : IsLiteral whole fraction text) :
    ∃ c rest, text = c :: rest ∧ c.isDigit = true := by
  obtain ⟨hne, hdigits, later, rfl⟩ :
      whole ≠ [] ∧ Digits whole ∧ ∃ later, text = whole ++ later := by
    cases h with
    | whole hne hdigits => exact ⟨hne, hdigits, [], (List.append_nil _).symm⟩
    | point hne _ hdigits _ => exact ⟨hne, hdigits, _, rfl⟩
  obtain ⟨c, whole, rfl⟩ := List.exists_cons_of_ne_nil hne
  exact ⟨c, _, rfl, hdigits c List.mem_cons_self⟩

theorem digits_replicate (n : Nat) : Digits (List.replicate n '0') := fun _ hc =>
  List.eq_of_mem_replicate hc ▸ rfl

theorem digits_append (h : Digits w) (hrest : Digits rest) : Digits (w ++ rest) := fun c hc =>
  (List.mem_append.1 hc).elim (h c) (hrest c)

/-- **Placing the point gives a literal** with the value of the digits. -/
theorem isLiteral_placePoint {digits : List Char} (hne : digits ≠ []) (hdigits : Digits digits)
    (point : Int) :
    ∃ whole fraction, IsLiteral whole fraction (NumberStyle.placePoint [] digits point) ∧
      (Decimal.ofLiteral whole fraction).toDouble false =
        Decimal.toDouble false ⟨Nat.ofDigitChars 10 digits 0, point - digits.length⟩ := by
  rw [NumberStyle.placePoint]
  split
  · next hpoint =>
    -- Zeros in front add nothing to the digits.
    refine ⟨['0'], List.replicate point.natAbs '0' ++ digits, .point (List.cons_ne_nil _ _) ?_ ?_
      (digits_append (digits_replicate _) hdigits), ?_⟩
    · simp [hne]
    · exact digits_replicate 1
    · rw [Decimal.ofLiteral, Nat.ofDigitChars_append, Nat.ofDigitChars_append,
        Nat.ofDigitChars_replicate_zero]
      congr 2
      simp only [List.length_append, List.length_replicate]
      omega
  · split
    · next hpoint hinside =>
      refine ⟨digits.take point.toNat, digits.drop point.toNat, .point ?_ ?_ ?_ ?_, ?_⟩
      · intro hnil
        rcases List.take_eq_nil_iff.1 hnil with hzero | hnil
        · omega
        · exact hne hnil
      · rw [ne_eq, List.drop_eq_nil_iff]
        omega
      · exact fun c hc => hdigits c (List.mem_of_mem_take hc)
      · exact fun c hc => hdigits c (List.mem_of_mem_drop hc)
      · rw [Decimal.ofLiteral, List.take_append_drop, List.length_drop]
        congr 2
        omega
    · next hpoint houtside =>
      -- Zeros behind the digits are a power of ten.
      refine ⟨_, [], .whole ?_ ?_, ?_⟩
      · simp [hne]
      · rw [List.append_nil]
        exact digits_append hdigits (digits_replicate _)
      · rw [Decimal.ofLiteral, List.append_nil, List.append_nil, Nat.ofDigitChars_append,
          Nat.ofDigitChars_replicate_zero, Nat.mul_comm, Decimal.toDouble_shift]
        congr 2
        simp only [List.length_nil]
        omega

/-- **The text of a number is a literal with its value.** -/
theorem isLiteral_text {units : Nat} (fits : Double.Representable units) :
    ∃ whole fraction, IsLiteral whole fraction (Double.finite false units fits).text.toList ∧
      (Decimal.ofLiteral whole fraction).toDouble false = .finite false units fits := by
  generalize hx : Decimal.shortest .upward units = x
  have hdigits : Digits (Nat.toDigits 10 x.digits) := fun c hc =>
    Nat.isDigit_of_mem_toDigits (by decide) (by decide) hc
  obtain ⟨whole, fraction, hliteral, hvalue⟩ :=
    isLiteral_placePoint Nat.toDigits_ne_nil hdigits
      (x.exponent + (Nat.toDigits 10 x.digits).length - 1 + 1)
  refine ⟨whole, fraction, ?_, ?_⟩
  · have htext : (Double.finite false units fits).text.toList =
        NumberStyle.placePoint [] (Nat.toDigits 10 x.digits)
          (x.exponent + (Nat.toDigits 10 x.digits).length - 1 + 1) := by
      rw [← hx]
      exact String.toList_ofList
    rwa [htext]
  · have hpoint : x.exponent + (Nat.toDigits 10 x.digits).length - 1 + 1 -
        (Nat.toDigits 10 x.digits).length = x.exponent := by omega
    rw [hvalue, hpoint, Nat.ofDigitChars_ten_toDigits, ← hx]
    exact Decimal.toDouble_shortest fits .upward

end Formula
end GuildRating
