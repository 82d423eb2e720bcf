/-
# Scanning word by word

A blank is a border, so a text is scanned word by word, and what is found does not depend on where
a word stands.  Without places, the tokens of a text or the error that stops them are those of its
words in order (`lexemesOf_wordsFrom`): texts with the same words cannot be told apart.
-/

import Mathlib
import GuildRating.Proofs.Scan.Border

namespace GuildRating
namespace Formula

/-- The error without its place. -/
def ScanError.placeless : ScanError → ScanError
  | unexpectedCharacter _ char => unexpectedCharacter 0 char
  | tooLong length limit => tooLong length limit
  | invalidNumber _ literal => invalidNumber 0 literal

/-- What was scanned without any places. -/
def lexemesOf (scanned : Except ScanError (List Token)) : Except ScanError (List Lexeme) :=
  (scanned.map (List.map Token.lexeme)).mapError ScanError.placeless

/-- Lexemes without places are those of the tokens that were scanned. -/
theorem lexemesOf_eq_ok {scanned : Except ScanError (List Token)} {lexemes : List Lexeme} :
    lexemesOf scanned = .ok lexemes ↔
      ∃ tokens, scanned = .ok tokens ∧ tokens.map Token.lexeme = lexemes := by
  cases scanned with
  | error e => simp [lexemesOf]
  | ok tokens => simp [lexemesOf]

/-- What is scanned in two parts has the lexemes of both. -/
theorem lexemesOf_append (x y : Except ScanError (List Token)) :
    lexemesOf (do
      let tokens ← x
      let later ← y
      return tokens ++ later) = (do
        let lexemes ← lexemesOf x
        let later ← lexemesOf y
        return lexemes ++ later) := by
  cases x with
  | error e => rfl
  | ok tokens =>
    cases y with
    | error e => rfl
    | ok later => exact congrArg Except.ok List.map_append

theorem numberOf_placeless (pos pos' : Nat) (literal whole fraction : List Char) :
    (numberOf pos literal whole fraction).mapError ScanError.placeless =
      (numberOf pos' literal whole fraction).mapError ScanError.placeless := by
  rw [numberOf, numberOf]
  split <;> rfl

theorem numberAt_placeless (pos pos' : Nat) (text : List Char) :
    (numberAt pos text).mapError ScanError.placeless =
      (numberAt pos' text).mapError ScanError.placeless := by
  by_cases h : (Decimal.splitDigits text).2.head? = some '.'
  · obtain ⟨tail, htail⟩ := List.head?_eq_some_iff.1 h
    rw [numberAt_point htail, numberAt_point htail]
    dsimp only
    split
    · rfl
    · exact numberOf_placeless ..
  · rw [numberAt_whole h, numberAt_whole h]
    exact numberOf_placeless ..

/-- The place of a lexeme has no part in how it is read. -/
theorem lexemeAt_placeless (pos pos' : Nat) (c : Char) (text : List Char) :
    (lexemeAt pos c text).mapError ScanError.placeless =
      (lexemeAt pos' c text).mapError ScanError.placeless := by
  rw [lexemeAt, lexemeAt]
  split
  · exact numberAt_placeless ..
  · split
    · rw [nameAt, nameAt]
      cases nameLength text <;> rfl
    · cases symbol? c text <;> rfl

/-- The lexemes of a text are the first one and those of the rest. -/
theorem lexemesOf_lexeme {pos : Nat} {c : Char} {rest : List Char}
    (h : Text.isBlank c = false) :
    lexemesOf (scanFrom pos (c :: rest)) = (do
      let (lexeme, more) ← (lexemeAt pos c rest).mapError ScanError.placeless
      let lexemes ← lexemesOf (scanFrom (pos + 1 + more) (rest.drop more))
      return lexeme :: lexemes) := by
  rw [scanFrom_lexeme h]
  cases lexemeAt pos c rest with
  | error e => rfl
  | ok taken =>
    obtain ⟨lexeme, more⟩ := taken
    simp only [ok_bind, mapError_ok]
    cases scanFrom (pos + 1 + more) (rest.drop more) <;> rfl

/-- **Where a text stands does not matter** to what is found in it. -/
theorem scanFrom_placeless (pos pos' : Nat) :
    (text : List Char) → lexemesOf (scanFrom pos text) = lexemesOf (scanFrom pos' text)
  | [] => by rw [scanFrom_nil, scanFrom_nil]
  | c :: rest => by
    cases hc : Text.isBlank c with
    | true =>
      rw [scanFrom_blank hc, scanFrom_blank hc]
      exact scanFrom_placeless _ _ rest
    | false =>
      rw [lexemesOf_lexeme hc, lexemesOf_lexeme hc, lexemeAt_placeless pos pos']
      refine bind_congr fun ⟨lexeme, more⟩ => ?_
      dsimp only
      rw [scanFrom_placeless (pos + 1 + more) (pos' + 1 + more) (rest.drop more)]
termination_by text => text.length

theorem toNat_of_inSegment {c : Char} (h : inSegment c = true) :
    48 ≤ c.toNat ∧ c.toNat ≤ 122 := by
  simp only [inSegment, Char.isAlphanum, Char.isAlpha, Char.isUpper, Char.isLower, Char.isDigit,
    Bool.or_eq_true, Bool.and_eq_true, decide_eq_true_eq, UInt32.le_iff_toNat_le, ge_iff_le] at h
  have : c.toNat = c.val.toNat := rfl
  rcases h with h | rfl
  · simp at h
    omega
  · decide

theorem toNat_of_isBlank {c : Char} (h : Text.isBlank c = true) :
    c.toNat ≤ 32 ∨ 133 ≤ c.toNat := by
  simp [Text.isBlank, Text.blankRanges] at h
  omega

/-- A blank is a border. -/
theorem border_of_isBlank {c : Char} {rest : List Char} (h : Text.isBlank c = true) :
    Border (c :: rest) := by
  have hc := toNat_of_isBlank h
  have hseg : inSegment c = false := by
    rw [← Bool.not_eq_true]
    intro hseg
    have := toNat_of_inSegment hseg
    omega
  have hne (d : Char) (hd : 32 < d.toNat ∧ d.toNat < 133) : c ≠ d := by
    rintro rfl
    omega
  simp [Border, endsLexeme, hseg, hne '.' (by decide), hne '=' (by decide), hne '&' (by decide),
    hne '|' (by decide)]

/-- The lexemes of words one after the other. -/
def lexemesOfWords : List (List Char) → Except ScanError (List Lexeme)
  | [] => .ok []
  | word :: rest => do
    let lexemes ← lexemesOf (scanFrom 0 word)
    let later ← lexemesOfWords rest
    return lexemes ++ later

/-- **A text is scanned word by word.** -/
theorem lexemesOf_wordsFrom (pos : Nat) (word text : List Char) :
    lexemesOf (scanFrom pos (word.reverse ++ text)) =
      lexemesOfWords (Text.wordsFrom word text) := by
  induction text generalizing pos word with
  | nil =>
    rw [List.append_nil, Text.wordsFrom]
    split
    · next h => rw [List.isEmpty_iff.1 h, List.reverse_nil, scanFrom_nil]; rfl
    · rw [lexemesOfWords, lexemesOfWords, scanFrom_placeless pos 0]
      cases lexemesOf (scanFrom 0 word.reverse) with
      | error e => rfl
      | ok lexemes => simp
  | cons c text ih =>
    rw [Text.wordsFrom]
    split
    · next hc =>
      have hlater (pos : Nat) : lexemesOf (scanFrom pos (c :: text)) =
          lexemesOfWords (Text.wordsFrom [] text) := by
        rw [scanFrom_blank hc]
        exact ih (pos + 1) []
      rw [scanFrom_append (border_of_isBlank hc), lexemesOf_append, hlater]
      split
      · next h =>
        rw [List.isEmpty_iff.1 h, List.reverse_nil, scanFrom_nil]
        cases lexemesOfWords (Text.wordsFrom [] text) <;> rfl
      · rw [scanFrom_placeless pos 0, lexemesOfWords]
    · rw [← ih pos (c :: word), List.reverse_cons, List.append_assoc, List.singleton_append]

end Formula
end GuildRating
