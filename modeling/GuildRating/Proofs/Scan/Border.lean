/-
# Borders between lexemes

A lexeme looks at most one character past its end, and only digits, points, characters of names
and the second characters of `<=`, `&&` and the like can make it longer.  Before any other
character, a blank or a parenthesis for instance, there is a border: the texts on both sides are
scanned as if each stood alone (`scanFrom_append`).
-/

import GuildRating.Formula.Token.Lexer
import GuildRating.Proofs.Steps

namespace GuildRating
namespace Formula

/-- The character continues no lexeme that stands before it. -/
def endsLexeme (c : Char) : Bool :=
  !inSegment c && c ≠ '.' && c ≠ '=' && c ≠ '&' && c ≠ '|'

/-- No lexeme goes on into the text. -/
def Border : List Char → Prop
  | [] => True
  | c :: _ => endsLexeme c = true

variable {pos : Nat} {c : Char} {w rest : List Char}

theorem border_of_endsLexeme (h : endsLexeme c = true) : Border (c :: rest) := h

/-- A character at a border continues no name, number or symbol. -/
theorem Border.head (h : Border (c :: rest)) :
    inSegment c = false ∧ c ≠ '.' ∧ c ≠ '=' ∧ c ≠ '&' ∧ c ≠ '|' := by
  simpa [Border, endsLexeme, and_assoc] using h

theorem isDigit_eq_false (h : inSegment c = false) : c.isDigit = false := by
  rw [← Bool.not_eq_true] at *
  exact fun hd => h (by simp [inSegment, Char.isAlphanum, hd])

theorem startsSegment_eq_false (h : inSegment c = false) : startsSegment c = false := by
  rw [← Bool.not_eq_true] at *
  intro hs
  simp only [startsSegment, inSegment, Char.isAlphanum, Bool.or_eq_true] at hs h
  exact h (hs.imp_left .inl)

/-- Digits end at a border. -/
theorem splitDigits_append (h : Border rest) :
    Decimal.splitDigits (w ++ rest) =
      ((Decimal.splitDigits w).1, (Decimal.splitDigits w).2 ++ rest) := by
  simp only [Decimal.splitDigits]
  induction w with
  | nil =>
    cases rest with
    | nil => rfl
    | cons d rest => simp [isDigit_eq_false h.head.1]
  | cons d w ih => cases hd : d.isDigit <;> simp_all

/-- What continues a name, by the first character. -/
theorem nameLength_cons : nameLength (c :: rest) =
    if inSegment c then nameLength.further (nameLength rest)
    else if c = '.' then
      if rest.head?.any startsSegment then nameLength.further (nameLength rest) else .error 0
    else .ok 0 := by
  rw [nameLength.eq_def]
  cases rest <;> rfl

/-- A name ends at a border. -/
theorem nameLength_append (h : Border rest) : nameLength (w ++ rest) = nameLength w := by
  induction w with
  | nil =>
    cases rest with
    | nil => rfl
    | cons d rest =>
      have hd : ¬ inSegment d = true := by simp [h.head.1]
      rw [List.nil_append, nameLength_cons, if_neg hd, if_neg h.head.2.1, nameLength]
  | cons d w ih =>
    have hhead : ((w ++ rest).head?.any startsSegment) = w.head?.any startsSegment := by
      cases w with
      | cons d' w => rfl
      | nil =>
        cases rest with
        | nil => rfl
        | cons d' rest => exact startsSegment_eq_false h.head.1
    rw [List.cons_append, nameLength_cons, nameLength_cons, ih, hhead]

/-- A name that goes one character further has a rest that is shorter by one. -/
theorem further_eq_ok {x : Except Nat Nat} {n : Nat} (h : nameLength.further x = .ok n) :
    ∃ m, x = .ok m ∧ n = m + 1 := by
  cases x with
  | error e => cases h
  | ok m => exact ⟨m, rfl, (Except.ok.inj h).symm⟩

/-- A name goes no further than the text. -/
theorem nameLength_le {n : Nat} (h : nameLength w = .ok n) : n ≤ w.length := by
  induction w generalizing n with
  | nil =>
    cases h
    exact Nat.zero_le _
  | cons d w ih =>
    have step {m : Nat} (hm : nameLength.further (nameLength w) = .ok m) : m ≤ w.length + 1 := by
      obtain ⟨k, hk, rfl⟩ := further_eq_ok hm
      exact Nat.succ_le_succ (ih hk)
    rw [nameLength_cons] at h
    split at h
    · exact step h
    · split at h
      · split at h
        · exact step h
        · cases h
      · cases h
        exact Nat.zero_le _

/-- A symbol ends at a border. -/
theorem symbol?_append (h : Border rest) : symbol? c (w ++ rest) = symbol? c w := by
  cases w with
  | nil =>
    cases rest with
    | nil => rfl
    | cons d rest =>
      have := h.head
      unfold symbol?
      split <;> simp_all
  | cons d w =>
    unfold symbol?
    split <;> simp_all

/-- A symbol goes no further than the text. -/
theorem symbol?_le {symbol : Symbol} {more : Nat} (h : symbol? c w = some (symbol, more)) :
    more ≤ w.length := by
  unfold symbol? at h
  split at h <;> simp_all <;> omega

/-- Names are read alike with a border behind them. -/
theorem nameAt_append (h : Border rest) : nameAt pos c (w ++ rest) = nameAt pos c w := by
  rw [nameAt, nameAt, nameLength_append h]
  cases hn : nameLength w with
  | error n => rfl
  | ok n =>
    dsimp only
    rw [List.take_append_of_le_length (nameLength_le hn)]

/-- A number with a point after its first digits, if it has any. -/
theorem numberAt_point {tail : List Char} (h : (Decimal.splitDigits w).2 = '.' :: tail) :
    numberAt pos w =
      let whole := (Decimal.splitDigits w).1
      let fraction := (Decimal.splitDigits tail).1
      if fraction.isEmpty then
        .error (.invalidNumber pos (String.ofList (whole ++ '.' :: fraction)))
      else numberOf pos (whole ++ '.' :: fraction) whole fraction := by
  rw [numberAt]
  simp only [h]

/-- A number without a point. -/
theorem numberAt_whole (h : (Decimal.splitDigits w).2.head? ≠ some '.') :
    numberAt pos w =
      numberOf pos (Decimal.splitDigits w).1 (Decimal.splitDigits w).1 [] := by
  rw [numberAt]
  dsimp only
  split
  · next he => simp [he] at h
  · rfl

/-- Numbers are read alike with a border behind them. -/
theorem numberAt_append (h : Border rest) : numberAt pos (w ++ rest) = numberAt pos w := by
  by_cases hw : (Decimal.splitDigits w).2.head? = some '.'
  · obtain ⟨tail, htail⟩ := List.head?_eq_some_iff.1 hw
    have happend : (Decimal.splitDigits (w ++ rest)).2 = '.' :: (tail ++ rest) := by
      rw [splitDigits_append h, htail, List.cons_append]
    rw [numberAt_point htail, numberAt_point happend, splitDigits_append h, splitDigits_append h]
  · have happend : (Decimal.splitDigits (w ++ rest)).2.head? ≠ some '.' := by
      rw [splitDigits_append h]
      cases hafter : (Decimal.splitDigits w).2 with
      | nil =>
        cases rest with
        | nil => simp
        | cons d rest => simp [h.head.2.1]
      | cons d after =>
        rw [hafter] at hw
        exact hw
    rw [numberAt_whole hw, numberAt_whole happend, splitDigits_append h]

/-- The lexeme at a place does not depend on what stands behind a border. -/
theorem lexemeAt_append (h : Border rest) : lexemeAt pos c (w ++ rest) = lexemeAt pos c w := by
  rw [lexemeAt, lexemeAt, ← List.cons_append, numberAt_append h, nameAt_append h,
    symbol?_append h]

/-- What is read as a number is finite, and all of its literal is taken. -/
theorem numberOf_eq_ok {literal whole fraction : List Char} {lexeme : Lexeme} {more : Nat}
    (h : numberOf pos literal whole fraction = .ok (lexeme, more)) :
    lexeme = .number ((Decimal.ofLiteral whole fraction).toDouble false) ∧
      ((Decimal.ofLiteral whole fraction).toDouble false).isFinite = true ∧
      more = literal.length - 1 := by
  rw [numberOf] at h
  split at h
  · next hfinite =>
    cases h
    exact ⟨rfl, hfinite, rfl⟩
  · cases h

theorem length_splitDigits (text : List Char) :
    (Decimal.splitDigits text).1.length + (Decimal.splitDigits text).2.length = text.length := by
  rw [← List.length_append, Decimal.splitDigits, List.takeWhile_append_dropWhile]

/-- A number goes no further than the text. -/
theorem numberAt_le {lexeme : Lexeme} {more : Nat}
    (h : numberAt pos (c :: w) = .ok (lexeme, more)) : more ≤ w.length := by
  have hlength := length_splitDigits (c :: w)
  rw [List.length_cons] at hlength
  by_cases hw : (Decimal.splitDigits (c :: w)).2.head? = some '.'
  · obtain ⟨tail, htail⟩ := List.head?_eq_some_iff.1 hw
    have htaillength := length_splitDigits tail
    rw [numberAt_point htail] at h
    dsimp only at h
    split at h
    · cases h
    · rw [(numberOf_eq_ok h).2.2, List.length_append, List.length_cons]
      rw [htail, List.length_cons] at hlength
      omega
  · rw [numberAt_whole hw] at h
    rw [(numberOf_eq_ok h).2.2]
    omega

/-- A lexeme ends within the text. -/
theorem lexemeAt_le {lexeme : Lexeme} {more : Nat} (h : lexemeAt pos c w = .ok (lexeme, more)) :
    more ≤ w.length := by
  rw [lexemeAt] at h
  split at h
  · exact numberAt_le h
  · split at h
    · rw [nameAt] at h
      split at h
      · next hn =>
        cases h
        exact nameLength_le hn
      · cases h
    · split at h
      · next hs =>
        cases h
        exact symbol?_le hs
      · cases h

theorem scanFrom_nil : scanFrom pos [] = .ok [] := by rw [scanFrom]

/-- A blank is passed over. -/
theorem scanFrom_blank (h : Text.isBlank c = true) :
    scanFrom pos (c :: rest) = scanFrom (pos + 1) rest := by
  rw [scanFrom, if_pos h]

/-- Any other character begins a lexeme, and scanning goes on behind it. -/
theorem scanFrom_lexeme (h : Text.isBlank c = false) :
    scanFrom pos (c :: rest) = (do
      let (lexeme, more) ← lexemeAt pos c rest
      let tokens ← scanFrom (pos + 1 + more) (rest.drop more)
      return ⟨lexeme, pos⟩ :: tokens) := by
  rw [scanFrom, if_neg (by simp [h])]

/-- **A border splits the work**: what stands before it is scanned first, what stands behind it
afterwards, and neither sees the other. -/
theorem scanFrom_append (h : Border rest) : scanFrom pos (w ++ rest) = (do
    let tokens ← scanFrom pos w
    let later ← scanFrom (pos + w.length) rest
    return tokens ++ later) := by
  induction hlength : w.length using Nat.strongRecOn generalizing pos w with
  | ind n ih =>
    subst hlength
    cases w with
    | nil =>
      rw [List.nil_append, scanFrom_nil, ok_bind, List.length_nil, Nat.add_zero]
      cases scanFrom pos rest <;> rfl
    | cons c w =>
      rw [List.cons_append]
      cases hc : Text.isBlank c with
      | true =>
        rw [scanFrom_blank hc, scanFrom_blank hc, ih w.length (by simp) rfl, List.length_cons,
          show pos + 1 + w.length = pos + (w.length + 1) by omega]
      | false =>
        rw [scanFrom_lexeme hc, scanFrom_lexeme hc, lexemeAt_append h]
        cases hlex : lexemeAt pos c w with
        | error e => rfl
        | ok taken =>
          obtain ⟨lexeme, more⟩ := taken
          have hmore := lexemeAt_le hlex
          simp only [ok_bind]
          have shorter : (w.drop more).length < (c :: w).length := by
            rw [List.length_drop, List.length_cons]
            omega
          rw [List.drop_append_of_le_length hmore, ih (w.drop more).length shorter rfl,
            List.length_drop, List.length_cons,
            show pos + 1 + more + (w.length - more) = pos + (w.length + 1) by omega]
          cases scanFrom (pos + 1 + more) (w.drop more) with
          | error e => rfl
          | ok tokens => cases scanFrom (pos + (w.length + 1)) rest <;> rfl

end Formula
end GuildRating
