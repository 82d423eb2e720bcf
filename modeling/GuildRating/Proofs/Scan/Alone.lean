/-
# Lexemes written alone

A lexeme that is found in a text can be written alone, and is then found again
(`readsBack_of_scanFrom`): a name is the characters that it was found in, a symbol has one spelling,
and a number, which may have lost zeros and digits that a double cannot hold, is written with the
digits that read back.
-/

import GuildRating.Proofs.Scan.Literal
import GuildRating.Proofs.Scan.Words

namespace GuildRating
namespace Formula

/-- A lexeme as a formula has it. -/
def Lexeme.written : Lexeme → List Char
  | number value => value.text.toList
  | name text => text.toList
  | symbol s => s.text.toList

/-- Written alone the lexeme is found again. -/
def Lexeme.ReadsBack (lexeme : Lexeme) : Prop :=
  lexemesOf (scanFrom 0 lexeme.written) = .ok [lexeme]

variable {pos : Nat} {c : Char} {rest : List Char} {lexeme : Lexeme}

/-- No character of a name is a blank. -/
theorem isBlank_of_inSegment (h : inSegment c = true) : Text.isBlank c = false := by
  have hc := toNat_of_inSegment h
  rw [← Bool.not_eq_true]
  intro hblank
  have := toNat_of_isBlank hblank
  omega

/-- A digit can stand in a name. -/
theorem inSegment_of_isDigit (h : c.isDigit = true) : inSegment c = true := by
  simp [inSegment, Char.isAlphanum, h]

/-- What can begin a name can stand in it. -/
theorem inSegment_of_startsSegment (h : startsSegment c = true) : inSegment c = true := by
  rw [← Bool.not_eq_false]
  intro hs
  rw [startsSegment_eq_false hs] at h
  cases h

theorem toNat_of_isDigit (h : c.isDigit = true) : c.toNat ≤ 57 := by
  simp only [Char.isDigit, Bool.and_eq_true, decide_eq_true_eq, UInt32.le_iff_toNat_le] at h
  exact h.2

theorem toNat_of_startsSegment (h : startsSegment c = true) : 65 ≤ c.toNat := by
  simp only [startsSegment, Char.isAlpha, Char.isUpper, Char.isLower, Bool.or_eq_true,
    Bool.and_eq_true, decide_eq_true_eq, UInt32.le_iff_toNat_le, ge_iff_le] at h
  rcases h with (h | h) | rfl
  · exact h.1
  · exact Nat.le_trans (by decide) h.1
  · decide

/-- A lexeme that takes the whole text is all that is found in it. -/
theorem lexemesOf_of_lexemeAt (hblank : Text.isBlank c = false)
    (h : lexemeAt pos c rest = .ok (lexeme, rest.length)) :
    lexemesOf (scanFrom pos (c :: rest)) = .ok [lexeme] := by
  rw [scanFrom_lexeme hblank, h, ok_bind]
  dsimp only
  rw [List.drop_length, scanFrom_nil]
  rfl

/-- The character starts a number. -/
def startsNumeral (c : Char) : Bool := c.isDigit || c = '.'

/-- What begins a name begins no number. -/
theorem startsNumeral_eq_false (h : startsSegment c = true) : startsNumeral c = false := by
  have hc := toNat_of_startsSegment h
  rw [← Bool.not_eq_true, startsNumeral, Bool.or_eq_true, decide_eq_true_eq]
  rintro (hdigit | rfl)
  · have := toNat_of_isDigit hdigit
    omega
  · exact absurd hc (by decide)

/-- The first character decides whether a number, a name or a symbol is read. -/
theorem lexemeAt_eq : lexemeAt pos c rest =
    if startsNumeral c then numberAt pos (c :: rest)
    else if startsSegment c then nameAt pos c rest
    else match symbol? c rest with
      | some (symbol, more) => .ok (.symbol symbol, more)
      | none => .error (.unexpectedCharacter pos c) := rfl

/-- A symbol is found again in its spelling. -/
theorem readsBack_symbol (s : Symbol) : (Lexeme.symbol s).ReadsBack := by
  have alone : ∃ c rest, s.text.toList = c :: rest ∧ Text.isBlank c = false ∧
      lexemeAt 0 c rest = .ok (.symbol s, rest.length) := by
    cases s <;> exact ⟨_, _, rfl, by decide, rfl⟩
  obtain ⟨c, rest, htext, hblank, h⟩ := alone
  rw [Lexeme.ReadsBack, Lexeme.written, htext]
  exact lexemesOf_of_lexemeAt hblank h

/-- A number that is finite and not negative is found again in its text. -/
theorem readsBack_number {units : Nat} (fits : Double.Representable units) :
    (Lexeme.number (.finite false units fits)).ReadsBack := by
  obtain ⟨whole, fraction, hliteral, hvalue⟩ := isLiteral_text fits
  obtain ⟨c, rest, htext, hdigit⟩ := hliteral.head
  have hlexeme : lexemeAt 0 c rest = .ok (.number (.finite false units fits), rest.length) := by
    rw [lexemeAt_eq, if_pos (by rw [startsNumeral, hdigit]; rfl), ← htext, hliteral.numberAt,
      numberOf, hvalue, htext]
    rfl
  rw [Lexeme.ReadsBack, Lexeme.written, htext]
  exact lexemesOf_of_lexemeAt (isBlank_of_inSegment (inSegment_of_isDigit hdigit)) hlexeme

/-- A name goes on if a letter or an underscore follows. -/
theorem ne_zero_of_startsSegment {n : Nat} (hnext : rest.head?.any startsSegment = true)
    (h : nameLength rest = .ok n) : n ≠ 0 := by
  cases rest with
  | nil => cases hnext
  | cons d rest =>
    rw [nameLength_cons, if_pos (inSegment_of_startsSegment hnext)] at h
    obtain ⟨m, -, rfl⟩ := further_eq_ok h
    exact Nat.succ_ne_zero m

/-- A name goes on as far in its own characters as in the text that it was found in. -/
theorem nameLength_take {n : Nat} (h : nameLength rest = .ok n) :
    nameLength (rest.take n) = .ok n := by
  induction rest generalizing n with
  | nil => rwa [List.take_nil]
  | cons c rest ih =>
    rw [nameLength_cons] at h
    split at h
    · next hc =>
      obtain ⟨m, hm, rfl⟩ := further_eq_ok h
      rw [List.take_succ_cons, nameLength_cons, if_pos hc, ih hm]
      rfl
    · next hc =>
      split at h
      · next hpoint =>
        split at h
        · next hnext =>
          obtain ⟨m, hm, rfl⟩ := further_eq_ok h
          have hne : m ≠ 0 := ne_zero_of_startsSegment hnext hm
          rw [List.take_succ_cons, nameLength_cons, if_neg hc, if_pos hpoint, List.head?_take,
            if_neg hne, if_pos hnext, ih hm]
          rfl
        · cases h
      · cases h
        rw [List.take_zero, nameLength]

/-- A name is found again in its own characters. -/
theorem readsBack_name {n : Nat} (hc : startsSegment c = true) (h : nameLength rest = .ok n) :
    (Lexeme.name (String.ofList (c :: rest.take n))).ReadsBack := by
  have hseg := inSegment_of_startsSegment hc
  have hlength : (rest.take n).length = n := List.length_take_of_le (nameLength_le h)
  have hnumber : ¬ startsNumeral c = true := by simp [startsNumeral_eq_false hc]
  rw [Lexeme.ReadsBack, Lexeme.written, String.toList_ofList]
  refine lexemesOf_of_lexemeAt (isBlank_of_inSegment hseg) ?_
  rw [lexemeAt_eq, if_neg hnumber, if_pos hc, nameAt, nameLength_take h]
  dsimp only
  rw [List.take_take, Nat.min_self, hlength]

/-- What was read as a finite double is a magnitude without a sign. -/
theorem finite_of_toDouble {x : Decimal} (h : (x.toDouble false).isFinite = true) :
    ∃ units fits, x.toDouble false = .finite false units fits := by
  have sign := @Decimal.toDouble_eq_ofQuotient false x
  cases hx : x.toDouble false with
  | nan =>
    rw [hx] at h
    cases h
  | infinity negative =>
    rw [hx] at h
    cases h
  | finite negative units fits =>
    obtain rfl : negative = false := Double.sign_of_ofQuotient (sign.symm.trans hx)
    exact ⟨units, fits, rfl⟩

/-- A number that is read from a text is finite and not negative, since a sign is no part of it. -/
theorem numberAt_eq_ok {text : List Char} {more : Nat}
    (h : numberAt pos text = .ok (lexeme, more)) :
    ∃ units fits, lexeme = .number (.finite false units fits) := by
  have taken {literal whole fraction : List Char}
      (h : numberOf pos literal whole fraction = .ok (lexeme, more)) :
      ∃ units fits, lexeme = .number (.finite false units fits) := by
    obtain ⟨hlexeme, hfinite, -⟩ := numberOf_eq_ok h
    obtain ⟨units, fits, hx⟩ := finite_of_toDouble hfinite
    exact ⟨units, fits, hlexeme.trans (congrArg _ hx)⟩
  by_cases hw : (Decimal.splitDigits text).2.head? = some '.'
  · obtain ⟨tail, htail⟩ := List.head?_eq_some_iff.1 hw
    rw [numberAt_point htail] at h
    dsimp only at h
    split at h
    · cases h
    · exact taken h
  · rw [numberAt_whole hw] at h
    exact taken h

/-- Every lexeme that is found anywhere is found again when it is written alone. -/
theorem readsBack_of_lexemeAt {more : Nat} (h : lexemeAt pos c rest = .ok (lexeme, more)) :
    lexeme.ReadsBack := by
  rw [lexemeAt_eq] at h
  split at h
  · obtain ⟨units, fits, rfl⟩ := numberAt_eq_ok h
    exact readsBack_number fits
  · split at h
    · next hc =>
      rw [nameAt] at h
      split at h
      · next hn =>
        cases h
        exact readsBack_name hc hn
      · cases h
    · split at h
      · next s _ _ =>
        cases h
        exact readsBack_symbol s
      · cases h

/-- **Every lexeme that is found reads back.** -/
theorem readsBack_of_scanFrom {tokens : List Token} (pos : Nat) (text : List Char)
    (h : scanFrom pos text = .ok tokens) : ∀ token ∈ tokens, token.lexeme.ReadsBack := by
  match text with
  | [] =>
    rw [scanFrom_nil] at h
    cases h
    exact fun token htoken => absurd htoken List.not_mem_nil
  | c :: rest =>
    cases hblank : Text.isBlank c with
    | true =>
      rw [scanFrom_blank hblank] at h
      exact readsBack_of_scanFrom (pos + 1) rest h
    | false =>
      rw [scanFrom_lexeme hblank] at h
      obtain ⟨⟨lexeme, more⟩, hlexeme, h⟩ := bind_eq_ok.1 h
      obtain ⟨later, hlater, h⟩ := bind_eq_ok.1 h
      cases h
      rw [List.forall_mem_cons]
      exact ⟨readsBack_of_lexemeAt hlexeme, readsBack_of_scanFrom _ (rest.drop more) hlater⟩
termination_by text.length
decreasing_by all_goals simp; try omega

end Formula
end GuildRating
