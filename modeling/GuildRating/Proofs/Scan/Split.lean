/-
# The split of a text into lexemes

A text is made of blanks and of lexemes, each of them the longest at its place (`Splits`), and in
one way only (`Splits.unique`).  The scanner finds tokens in exactly these texts, and then the
lexemes in order, each with the place of its first character (`scan_splits_at_longest_lexemes`).  A
`1.` with no digit behind is no such text, since a lexeme that begins with a point goes on with a
digit (`Splits.digit_of_point`).
-/

import GuildRating.Proofs.Scan.Places

namespace GuildRating
namespace Formula

/-- A token and the characters that it was found in. -/
structure Piece extends Token where
  text : List Char

/-- The text, whose first character stands at `pos`, is made of these pieces in order, with nothing
but blanks around them. -/
inductive Splits : Nat → List Char → List Piece → Prop
  | done {pos : Nat} : Splits pos [] []
  | blank {pos : Nat} {c : Char} {rest : List Char} {pieces : List Piece} :
      Text.isBlank c = true → Splits (pos + 1) rest pieces → Splits pos (c :: rest) pieces
  | lexeme {pos : Nat} {w rest : List Char} {lexeme : Lexeme} {pieces : List Piece} :
      Taken w rest lexeme → Splits (pos + w.length) rest pieces →
      Splits pos (w ++ rest) (⟨⟨lexeme, pos⟩, w⟩ :: pieces)

variable {pos : Nat} {rest text : List Char} {pieces : List Piece}

/-- Where a lexeme begins with a point, a digit follows. -/
theorem Splits.digit_of_point (h : Splits pos ('.' :: rest) pieces) :
    rest.head?.any Char.isDigit = true := by
  generalize htext : '.' :: rest = text at h
  cases h with
  | done => cases htext
  | blank hblank _ =>
    rw [← (List.cons.inj htext).1] at hblank
    exact absurd hblank (by decide)
  | @lexeme _ w after lexeme _ htaken _ =>
    obtain ⟨c, w, rfl, -⟩ := htaken.spells.ne_nil
    obtain rfl : '.' = c := (List.cons.inj htext).1
    obtain rfl : rest = w ++ after := (List.cons.inj htext).2
    obtain ⟨whole, fraction, hn, -⟩ := htaken.spells.numeral rfl
    generalize hliteral : '.' :: w = literal at hn
    cases hn with
    | whole hne hdigits =>
      rw [← hliteral] at hdigits
      exact absurd (hdigits '.' List.mem_cons_self) (by decide)
    | point hwhole hne hfraction =>
      cases whole with
      | cons d whole =>
        rw [← (List.cons.inj hliteral).1] at hwhole
        exact absurd (hwhole '.' List.mem_cons_self) (by decide)
      | nil =>
        obtain ⟨d, fraction, rfl⟩ := List.exists_cons_of_ne_nil hne
        obtain rfl : w = d :: fraction := (List.cons.inj hliteral).2
        exact hfraction d List.mem_cons_self

/-- What the scanner finds is a split of the text. -/
theorem splits_of_scanFrom {tokens : List Token} (pos : Nat) (text : List Char)
    (h : scanFrom pos text = .ok tokens) :
    ∃ pieces, Splits pos text pieces ∧ pieces.map Piece.toToken = tokens := by
  match text with
  | [] =>
    rw [scanFrom_nil] at h
    cases h
    exact ⟨[], .done, rfl⟩
  | c :: rest =>
    cases hblank : Text.isBlank c with
    | true =>
      rw [scanFrom_blank hblank] at h
      obtain ⟨pieces, hsplits, htokens⟩ := splits_of_scanFrom (pos + 1) rest h
      exact ⟨pieces, .blank hblank hsplits, htokens⟩
    | false =>
      rw [scanFrom_lexeme hblank] at h
      obtain ⟨⟨lexeme, more⟩, hlexeme, h⟩ := bind_eq_ok.1 h
      obtain ⟨later, hlater, h⟩ := bind_eq_ok.1 h
      cases h
      obtain ⟨pieces, hsplits, rfl⟩ := splits_of_scanFrom _ (rest.drop more) hlater
      have hlength : pos + (c :: rest.take more).length = pos + 1 + more := by
        rw [List.length_cons, List.length_take_of_le (lexemeAt_le hlexeme)]
        omega
      have split := Splits.lexeme (taken_of_lexemeAt hlexeme) (hlength ▸ hsplits)
      rw [List.cons_append, List.take_append_drop] at split
      exact ⟨_, split, rfl⟩
termination_by text.length
decreasing_by all_goals simp; try omega

/-- Every split of the text is found by the scanner. -/
theorem Splits.scanFrom (h : Splits pos text pieces) :
    scanFrom pos text = .ok (pieces.map Piece.toToken) := by
  induction h with
  | done => exact scanFrom_nil
  | blank hblank _ ih => rw [scanFrom_blank hblank, ih]
  | @lexeme pos w rest lexeme pieces htaken hrest ih =>
    obtain ⟨c, w, rfl, hblank⟩ := htaken.spells.ne_nil
    have hpoint : ∀ tail, rest = '.' :: tail → tail.head?.any Char.isDigit = true := by
      rintro tail rfl
      exact hrest.digit_of_point
    rw [List.cons_append, scanFrom_lexeme hblank, lexemeAt_of_taken htaken hpoint, ok_bind]
    dsimp only
    rw [List.drop_left, Nat.add_assoc, Nat.add_comm 1, ← List.length_cons (a := c), ih]
    rfl

namespace Splits

/-- No piece stands before the text. -/
theorem le_pos (h : Splits pos text pieces) : ∀ p ∈ pieces, pos ≤ p.pos := by
  induction h with
  | done => exact List.forall_mem_nil _
  | blank _ _ ih => exact fun p hp => Nat.le_of_succ_le (ih p hp)
  | lexeme _ _ ih =>
    refine List.forall_mem_cons.2 ⟨Nat.le_refl _, fun p hp => ?_⟩
    exact Nat.le_trans (Nat.le_add_right _ _) (ih p hp)

/-- Each piece ends before the next one begins. -/
theorem pairwise (h : Splits pos text pieces) :
    pieces.Pairwise fun p q => p.pos + p.text.length ≤ q.pos := by
  induction h with
  | done => exact .nil
  | blank _ _ ih => exact ih
  | lexeme _ hrest ih => exact .cons (fun q hq => hrest.le_pos q hq) ih

/-- Each piece stands at its place and is written for its lexeme. -/
theorem placed (h : Splits pos text pieces) : ∀ p ∈ pieces, Spells p.text p.lexeme ∧
    ∃ k, p.pos = pos + k ∧ p.text <+: text.drop k := by
  induction h with
  | done => exact List.forall_mem_nil _
  | blank _ _ ih =>
    intro p hp
    obtain ⟨hspells, k, hpos, htext⟩ := ih p hp
    exact ⟨hspells, k + 1, by omega, htext⟩
  | @lexeme pos w rest lexeme pieces htaken _ ih =>
    refine List.forall_mem_cons.2
      ⟨⟨htaken.spells, 0, rfl, List.prefix_append w rest⟩, fun p hp => ?_⟩
    obtain ⟨hspells, k, hpos, htext⟩ := ih p hp
    refine ⟨hspells, w.length + k, by omega, ?_⟩
    rwa [List.drop_length_add_append]

/-- A piece has characters, so the places increase. -/
theorem pos_lt (h : Splits pos text pieces) :
    pieces.Pairwise fun p q => p.pos < q.pos ∧ p.pos + p.text.length ≤ q.pos := by
  refine h.pairwise.imp_of_mem fun {p q} hp _ hle => ⟨?_, hle⟩
  obtain ⟨c, w, hw, -⟩ := (h.placed p hp).1.ne_nil
  rw [hw, List.length_cons] at hle
  omega

/-- Numbers are finite. -/
theorem isFinite (h : Splits pos text pieces) :
    ∀ p ∈ pieces, ∀ value, p.lexeme = .number value → value.isFinite = true := by
  induction h with
  | done => exact List.forall_mem_nil _
  | blank _ _ ih => exact ih
  | lexeme htaken _ ih => exact List.forall_mem_cons.2 ⟨htaken.finite, ih⟩

/-- A number has the value of its digits, and no sign. -/
theorem number (h : Splits pos text pieces) {p : Piece} (hp : p ∈ pieces) {value : Double}
    (hlexeme : p.lexeme = .number value) : value.isFinite = true ∧ value.isNegative = false ∧
      ∃ whole fraction, IsNumeral whole fraction p.text ∧
        value = (Decimal.ofLiteral whole fraction).toDouble false := by
  have hfinite := h.isFinite p hp value hlexeme
  obtain ⟨hspells, -⟩ := h.placed p hp
  rw [hlexeme] at hspells
  obtain ⟨whole, fraction, hn, rfl⟩ := hspells.of_number
  obtain ⟨units, fits, hx⟩ := finite_of_toDouble hfinite
  exact ⟨hfinite, by rw [hx]; rfl, whole, fraction, hn, rfl⟩

/-- The first piece stands behind blanks, and what follows it is split into the others. -/
theorem head {p : Piece} (h : Splits pos text (p :: pieces)) : ∃ blanks rest,
    text = blanks ++ (p.text ++ rest) ∧ (∀ c ∈ blanks, Text.isBlank c = true) ∧
      p.pos = pos + blanks.length ∧ Taken p.text rest p.lexeme ∧
      Splits (p.pos + p.text.length) rest pieces := by
  generalize hpieces : p :: pieces = all at h
  induction h with
  | done => cases hpieces
  | @blank pos c rest all hblank _ ih =>
    obtain ⟨blanks, rest', rfl, hblanks, hpos, htaken, hrest⟩ := ih hpieces
    refine ⟨c :: blanks, rest', rfl, List.forall_mem_cons.2 ⟨hblank, hblanks⟩, ?_, htaken, hrest⟩
    rw [hpos, List.length_cons]
    omega
  | lexeme htaken hrest _ =>
    cases hpieces
    exact ⟨[], _, rfl, List.forall_mem_nil _, rfl, htaken, hrest⟩

/-- What stands at the place of a piece: its characters, taken as its lexeme, and then a text that
is split into the later pieces. -/
theorem at_piece {before later : List Piece} {p : Piece}
    (h : Splits pos text (before ++ p :: later)) :
    ∃ k rest, p.pos = pos + k ∧ text.drop k = p.text ++ rest ∧ Taken p.text rest p.lexeme ∧
      Splits (p.pos + p.text.length) rest later := by
  induction before generalizing pos text with
  | nil =>
    obtain ⟨blanks, rest, rfl, -, hpos, htaken, hrest⟩ := h.head
    exact ⟨blanks.length, rest, hpos, List.drop_left, htaken, hrest⟩
  | cons q before ih =>
    obtain ⟨blanks, rest, rfl, -, hpos, -, hrest⟩ := h.head
    obtain ⟨k, rest', hpos', htext, htaken, hlater⟩ := ih hrest
    refine ⟨blanks.length + (q.text.length + k), rest', by omega, ?_, htaken, hlater⟩
    rw [List.drop_length_add_append, List.drop_length_add_append, htext]

/-- **A text has one split.** -/
theorem unique {pieces' : List Piece} (h : Splits pos text pieces) (h' : Splits pos text pieces') :
    pieces = pieces' := by
  have tokens : pieces.map Piece.toToken = pieces'.map Piece.toToken :=
    Except.ok.inj (h.scanFrom.symm.trans h'.scanFrom)
  -- the tokens are those of the scanner, so it is left that they have the same characters
  induction pieces generalizing pos text pieces' with
  | nil => exact (List.map_eq_nil_iff.1 tokens.symm).symm
  | cons p pieces ih =>
    obtain ⟨q, pieces', rfl, htoken, htokens⟩ := List.map_eq_cons_iff.1 tokens.symm
    obtain ⟨blanks, rest, htext, -, hpos, htaken, hlater⟩ := h.head
    obtain ⟨blanks', rest', htext', -, hpos', htaken', hlater'⟩ := h'.head
    obtain ⟨⟨lexeme, place⟩, w⟩ := p
    obtain ⟨⟨lexeme', place'⟩, w'⟩ := q
    cases htoken
    dsimp only at *
    have hblanks : blanks.length = blanks'.length := by omega
    obtain ⟨-, hrest⟩ := List.append_inj (htext.symm.trans htext') hblanks
    have hlength : w.length = w'.length :=
      Nat.le_antisymm (htaken'.longest w rest _ hrest.symm htaken.spells)
        (htaken.longest w' rest' _ hrest htaken'.spells)
    obtain ⟨rfl, rfl⟩ := List.append_inj hrest hlength
    rw [ih hlater hlater' htokens.symm]

end Splits

/-- The places of the tokens that are found increase. -/
theorem pairwise_of_scan {limit : Nat} {source : String} {tokens : List Token}
    (h : scan limit source = .ok tokens) : tokens.Pairwise fun t t' => t.pos < t'.pos := by
  rw [scan_of_le (length_le_of_scan h)] at h
  obtain ⟨pieces, hsplits, rfl⟩ := splits_of_scanFrom 0 source.toList h
  exact List.pairwise_map.2 (hsplits.pos_lt.imp fun hlt => hlt.1)

end Formula
end GuildRating
