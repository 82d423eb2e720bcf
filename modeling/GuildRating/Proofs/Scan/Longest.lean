/-
# The longest lexeme

The lexemes and their spelling, said without the scanner: a symbol, a number (`digits`,
`digits.digits` or `.digits`) or a name, that is segments joined by single points (`Spells`).  The
one that is taken is the longest at its place; a name must not run into another point, and a number
must be finite (`Taken`).  The scanner takes such a lexeme (`taken_of_lexemeAt`), and takes each of
them (`lexemeAt_of_taken`), except that it looks behind the point of `1. + x` at once and refuses,
where the grammar takes the `1` and has no lexeme for the point that is left.
-/

import GuildRating.Proofs.Scan.Alone
import GuildRating.Proofs.Spelling

namespace GuildRating
namespace Formula

/-- Digits, or a point with digits behind it and perhaps before it. -/
inductive IsNumeral : (whole fraction text : List Char) → Prop
  | whole {whole : List Char} : whole ≠ [] → Digits whole → IsNumeral whole [] whole
  | point {whole fraction : List Char} : Digits whole → fraction ≠ [] → Digits fraction →
      IsNumeral whole fraction (whole ++ '.' :: fraction)

/-- A letter or an underscore, then letters, digits and underscores. -/
inductive IsSegment : List Char → Prop
  | mk {c : Char} {rest : List Char} : startsSegment c = true →
      (∀ d ∈ rest, inSegment d = true) → IsSegment (c :: rest)

/-- Segments joined by single points. -/
inductive IsName : List Char → Prop
  | segment {s : List Char} : IsSegment s → IsName s
  | joined {s text : List Char} : IsSegment s → IsName text → IsName (s ++ '.' :: text)

/-- The characters are written for the lexeme. -/
inductive Spells : List Char → Lexeme → Prop
  | symbol (s : Symbol) : Spells s.text.toList (.symbol s)
  | number {whole fraction text : List Char} : IsNumeral whole fraction text →
      Spells text (.number ((Decimal.ofLiteral whole fraction).toDouble false))
  | name {text : List Char} : IsName text → Spells text (.name (String.ofList text))

/-- Of a text that begins with `w` and goes on with `rest`, `w` is taken as the lexeme. -/
structure Taken (w rest : List Char) (lexeme : Lexeme) : Prop where
  spells : Spells w lexeme
  /-- No lexeme at this place has more characters. -/
  longest : ∀ w' rest' lexeme', w ++ rest = w' ++ rest' → Spells w' lexeme' → w'.length ≤ w.length
  /-- A name does not run into a point. -/
  noPoint : ∀ name, lexeme = .name name → rest.head? ≠ some '.'
  finite : ∀ value, lexeme = .number value → value.isFinite = true

variable {pos more : Nat} {c : Char} {w rest text whole fraction : List Char} {lexeme : Lexeme}

/-! ### What the first character tells -/

/-- A number begins with a digit or a point. -/
theorem IsNumeral.head (h : IsNumeral whole fraction text) :
    ∃ c rest, text = c :: rest ∧ startsNumeral c = true := by
  have digit {c : Char} {w : List Char} (h : Digits (c :: w)) : startsNumeral c = true := by
    rw [startsNumeral, h c List.mem_cons_self, Bool.true_or]
  cases h with
  | whole hne hdigits =>
    obtain ⟨c, w, rfl⟩ := List.exists_cons_of_ne_nil hne
    exact ⟨c, w, rfl, digit hdigits⟩
  | point hdigits _ _ =>
    cases whole with
    | nil => exact ⟨'.', fraction, rfl, rfl⟩
    | cons c w => exact ⟨c, _, rfl, digit hdigits⟩

/-- A name begins with a letter or an underscore. -/
theorem IsName.head (h : IsName text) : ∃ c rest, text = c :: rest ∧ startsSegment c = true := by
  cases h with
  | segment hs =>
    obtain ⟨hc, -⟩ := hs
    exact ⟨_, _, rfl, hc⟩
  | joined hs _ =>
    obtain ⟨hc, -⟩ := hs
    exact ⟨_, _, rfl, hc⟩

/-- A symbol begins as no number, no name and no blank does. -/
theorem Symbol.head (s : Symbol) : ∃ c rest, s.text.toList = c :: rest ∧
    startsNumeral c = false ∧ startsSegment c = false ∧ Text.isBlank c = false := by
  cases s <;> exact ⟨_, _, rfl, by decide, by decide, by decide⟩

/-- Only a number starts with a digit or a point. -/
theorem Spells.numeral (h : Spells (c :: w) lexeme) (hc : startsNumeral c = true) :
    ∃ whole fraction, IsNumeral whole fraction (c :: w) ∧
      lexeme = .number ((Decimal.ofLiteral whole fraction).toDouble false) := by
  generalize htext : c :: w = text at h
  cases h with
  | symbol s =>
    obtain ⟨d, rest, hs, hd, -⟩ := s.head
    rw [hs] at htext
    rw [(List.cons.inj htext).1, hd] at hc
    cases hc
  | number hn => exact ⟨_, _, hn, rfl⟩
  | name hn =>
    obtain ⟨d, rest, rfl, hd⟩ := hn.head
    rw [(List.cons.inj htext).1, startsNumeral_eq_false hd] at hc
    cases hc

/-- Only a name starts with a letter or an underscore. -/
theorem Spells.isName (h : Spells (c :: w) lexeme) (hc : startsSegment c = true) :
    IsName (c :: w) ∧ lexeme = .name (String.ofList (c :: w)) := by
  generalize htext : c :: w = text at h
  cases h with
  | symbol s =>
    obtain ⟨d, rest, hs, -, hd, -⟩ := s.head
    rw [hs] at htext
    rw [(List.cons.inj htext).1, hd] at hc
    cases hc
  | number hn =>
    obtain ⟨d, rest, rfl, hd⟩ := hn.head
    rw [← (List.cons.inj htext).1, startsNumeral_eq_false hc] at hd
    cases hd
  | name hn => exact ⟨hn, rfl⟩

/-- What starts with any other character is a symbol. -/
theorem Spells.isSymbol (h : Spells (c :: w) lexeme) (hnumeral : startsNumeral c = false)
    (hsegment : startsSegment c = false) : ∃ s : Symbol, s.text.toList = c :: w ∧
      lexeme = .symbol s := by
  generalize htext : c :: w = text at h
  cases h with
  | symbol s => exact ⟨s, rfl, rfl⟩
  | number hn =>
    obtain ⟨d, rest, rfl, hd⟩ := hn.head
    rw [← (List.cons.inj htext).1, hnumeral] at hd
    cases hd
  | name hn =>
    obtain ⟨d, rest, rfl, hd⟩ := hn.head
    rw [← (List.cons.inj htext).1, hsegment] at hd
    cases hd

/-- What is written for a number are the digits of that number. -/
theorem Spells.of_number {value : Double} (h : Spells text (.number value)) :
    ∃ whole fraction, IsNumeral whole fraction text ∧
      value = (Decimal.ofLiteral whole fraction).toDouble false := by
  cases h with
  | number hn => exact ⟨_, _, hn, rfl⟩

/-- A lexeme has at least one character, and starts with no blank. -/
theorem Spells.ne_nil (h : Spells text lexeme) : ∃ c rest, text = c :: rest ∧
    Text.isBlank c = false := by
  cases h with
  | symbol s =>
    obtain ⟨c, rest, hs, -, -, hc⟩ := s.head
    exact ⟨c, rest, hs, hc⟩
  | number hn =>
    obtain ⟨c, rest, rfl, hc⟩ := hn.head
    rw [startsNumeral, Bool.or_eq_true, decide_eq_true_eq] at hc
    rcases hc with hdigit | rfl
    · exact ⟨c, rest, rfl, isBlank_of_inSegment (inSegment_of_isDigit hdigit)⟩
    · exact ⟨'.', rest, rfl, by decide⟩
  | name hn =>
    obtain ⟨c, rest, rfl, hc⟩ := hn.head
    exact ⟨c, rest, rfl, isBlank_of_inSegment (inSegment_of_startsSegment hc)⟩

/-! ### Names -/

/-- So many characters more, on either outcome. -/
def furtherBy (k : Nat) : Except Nat Nat → Except Nat Nat
  | .ok n => .ok (k + n)
  | .error n => .error (k + n)

theorem furtherBy_zero (x : Except Nat Nat) : furtherBy 0 x = x := by
  cases x <;> simp [furtherBy]

theorem further_furtherBy (k : Nat) (x : Except Nat Nat) :
    nameLength.further (furtherBy k x) = furtherBy (k + 1) x := by
  cases x <;> simp [furtherBy, nameLength.further, Nat.add_right_comm]

/-- Characters of a segment are passed one by one. -/
theorem nameLength_segment (h : ∀ d ∈ w, inSegment d = true) :
    nameLength (w ++ rest) = furtherBy w.length (nameLength rest) := by
  induction w with
  | nil => rw [List.nil_append, List.length_nil, furtherBy_zero]
  | cons d w ih =>
    obtain ⟨hd, hw⟩ := List.forall_mem_cons.1 h
    rw [List.cons_append, nameLength_cons, if_pos hd, ih hw, further_furtherBy, List.length_cons]

/-- A segment has no points in it. -/
theorem IsSegment.forall_inSegment (h : IsSegment w) : ∀ d ∈ w, inSegment d = true := by
  obtain ⟨hc, hrest⟩ := h
  exact List.forall_mem_cons.2 ⟨inSegment_of_startsSegment hc, hrest⟩

/-- A name is passed as a whole. -/
theorem IsName.nameLength_append (h : IsName text) (rest : List Char) :
    nameLength (text ++ rest) = furtherBy text.length (nameLength rest) := by
  induction h with
  | segment hs => exact nameLength_segment hs.forall_inSegment
  | @joined s text hs ht ih =>
    obtain ⟨d, text', htext, hd⟩ := ht.head
    have hpoint : inSegment '.' = false := by decide
    have hnext : (text ++ rest).head?.any startsSegment = true := by rw [htext]; exact hd
    have step : nameLength ('.' :: (text ++ rest)) =
        furtherBy (text.length + 1) (nameLength rest) := by
      rw [nameLength_cons, if_neg (by simp [hpoint]), if_pos rfl, if_pos hnext, ih,
        further_furtherBy]
    rw [List.append_assoc, List.cons_append, nameLength_segment hs.forall_inSegment, step]
    cases nameLength rest <;> simp [furtherBy, Nat.add_assoc]

/-- The same of a name whose first character has been passed. -/
theorem nameLength_of_isName (h : IsName (c :: w)) (rest : List Char) :
    nameLength (w ++ rest) = furtherBy w.length (nameLength rest) := by
  obtain ⟨d, w', hw, hd⟩ := h.head
  obtain ⟨rfl, rfl⟩ := List.cons.inj hw
  have whole := h.nameLength_append rest
  rw [List.cons_append, nameLength_cons, if_pos (inSegment_of_startsSegment hd)] at whole
  cases hx : nameLength (w ++ rest) with
  | ok n =>
    cases hy : nameLength rest with
    | ok m => simp_all [furtherBy, nameLength.further]; omega
    | error m => simp_all [furtherBy, nameLength.further]
  | error n =>
    cases hy : nameLength rest with
    | ok m => simp_all [furtherBy, nameLength.further]
    | error m => simp_all [furtherBy, nameLength.further]; omega

/-- What the scanner passes continues a segment that was begun, or is a name if none was. -/
theorem isName_append {n : Nat} {s : List Char}
    (hs : IsSegment s ∨ s = [] ∧ rest.head?.any startsSegment = true)
    (h : nameLength rest = .ok n) : IsName (s ++ rest.take n) := by
  induction rest generalizing s n with
  | nil =>
    rcases hs with hs | ⟨-, hs⟩
    · rw [List.take_nil, List.append_nil]
      exact .segment hs
    · cases hs
  | cons d rest ih =>
    rw [nameLength_cons] at h
    split at h
    · next hd =>
      obtain ⟨m, hm, rfl⟩ := further_eq_ok h
      have begun : IsSegment (s ++ [d]) := by
        rcases hs with ⟨hc, hw⟩ | ⟨rfl, hd'⟩
        · refine .mk hc fun e he => ?_
          rcases List.mem_append.1 he with he | he
          · exact hw e he
          · rw [List.mem_singleton.1 he]
            exact hd
        · exact .mk hd' (List.forall_mem_nil _)
      have := ih (.inl begun) hm
      rwa [List.append_assoc, List.singleton_append] at this
    · next hd =>
      have begun : IsSegment s := by
        rcases hs with hs | ⟨-, hs⟩
        · exact hs
        · exact absurd (inSegment_of_startsSegment hs) hd
      split at h
      · next hpoint =>
        split at h
        · next hnext =>
          obtain ⟨m, hm, rfl⟩ := further_eq_ok h
          rw [List.take_succ_cons, hpoint]
          exact .joined begun (ih (.inr ⟨rfl, hnext⟩) hm)
        · cases h
      · cases h
        rw [List.take_zero, List.append_nil]
        exact .segment begun

/-- Where the scanner stops, a name can go on neither in its segment nor with a point. -/
theorem nameLength_eq_zero (h : nameLength rest = .ok 0) :
    rest.head?.any inSegment = false ∧ rest.head? ≠ some '.' := by
  cases rest with
  | nil => exact ⟨rfl, nofun⟩
  | cons d rest =>
    rw [nameLength_cons] at h
    split at h
    · obtain ⟨m, -, hm⟩ := further_eq_ok h
      cases hm
    · next hd =>
      split at h
      · split at h
        · obtain ⟨m, -, hm⟩ := further_eq_ok h
          cases hm
        · cases h
      · next hpoint => exact ⟨by simpa using hd, by simpa using hpoint⟩

/-- A name ends before what is no part of a segment and no point. -/
theorem nameLength_of_stop (hsegment : rest.head?.any inSegment = false)
    (hpoint : rest.head? ≠ some '.') : nameLength rest = .ok 0 := by
  cases rest with
  | nil => rfl
  | cons d rest =>
    have hd : ¬ inSegment d = true := by simpa using hsegment
    have hd' : d ≠ '.' := by simpa using hpoint
    rw [nameLength_cons, if_neg hd, if_neg hd']

/-- A lexeme is the longest at its place if no other one with its first character is longer. -/
theorem longest_cons (h : ∀ w' rest' lexeme', w ++ rest = w' ++ rest' → Spells (c :: w') lexeme' →
    w'.length ≤ w.length) :
    ∀ w' rest' lexeme', c :: w ++ rest = w' ++ rest' → Spells w' lexeme' →
      w'.length ≤ (c :: w).length := by
  intro w' rest' lexeme' heq hspells
  obtain ⟨d, w', rfl, -⟩ := hspells.ne_nil
  obtain ⟨rfl, htail⟩ := List.cons.inj heq
  exact Nat.succ_le_succ (h w' rest' lexeme' htail hspells)

/-- A name that the scanner reads is the longest at its place. -/
theorem taken_name {n : Nat} (hc : startsSegment c = true) (h : nameLength rest = .ok n) :
    Taken (c :: rest.take n) (rest.drop n) (.name (String.ofList (c :: rest.take n))) := by
  have hname : IsName (c :: rest.take n) :=
    isName_append (.inl (.mk hc (List.forall_mem_nil _))) h
  have hlength : (rest.take n).length = n := List.length_take_of_le (nameLength_le h)
  refine ⟨.name hname, longest_cons ?_, ?_, fun _ h => by cases h⟩
  · intro w' rest' lexeme' heq hspells
    rw [List.take_append_drop] at heq
    rw [heq, nameLength_of_isName (hspells.isName hc).1] at h
    rw [hlength]
    cases hx : nameLength rest' with
    | error m =>
      rw [hx] at h
      cases h
    | ok m =>
      rw [hx] at h
      cases h
      exact Nat.le_add_right _ _
  · intro _ _
    have stop := nameLength_of_isName hname (rest.drop n)
    rw [List.take_append_drop, h, hlength] at stop
    cases hx : nameLength (rest.drop n) with
    | error m =>
      rw [hx] at stop
      cases stop
    | ok m =>
      rw [hx, furtherBy, Except.ok.injEq] at stop
      obtain rfl : m = 0 := by omega
      exact (nameLength_eq_zero hx).2

/-! ### Numbers -/

/-- A text is split into its first digits and a rest that begins with no digit. -/
theorem splitDigits_spec (text : List Char) : ∃ whole after,
    Decimal.splitDigits text = (whole, after) ∧ text = whole ++ after ∧ Digits whole ∧
      after.head?.all (fun c => !c.isDigit) = true := by
  refine ⟨_, _, rfl, List.takeWhile_append_dropWhile.symm, fun c hc => ?_, ?_⟩
  · exact List.mem_takeWhile_imp hc
  · cases hafter : text.dropWhile Char.isDigit with
    | nil => rfl
    | cons d after =>
      have := List.head?_dropWhile_not Char.isDigit text
      rw [hafter] at this
      simpa using this

/-- No more digits stand in front than are split off. -/
theorem length_le_of_digits {after w' rest' : List Char}
    (hafter : after.head?.all (fun c => !c.isDigit) = true) (hw : Digits w)
    (hw' : Digits w') (heq : w ++ after = w' ++ rest') : w'.length ≤ w.length := by
  have split := splitDigits_of_digits hw hafter
  rw [heq, Decimal.splitDigits, List.takeWhile_append_of_pos hw', Prod.mk.injEq] at split
  rw [← split.1, List.length_append]
  exact Nat.le_add_right _ _

/-- Digits are the longest number at their place if neither a digit nor a point follows. -/
theorem taken_whole {after : List Char} (hne : whole ≠ []) (hwhole : Digits whole)
    (hafter : after.head?.all (fun c => !c.isDigit) = true) (hpoint : after.head? ≠ some '.')
    (hfinite : ((Decimal.ofLiteral whole []).toDouble false).isFinite = true) :
    Taken whole after (.number ((Decimal.ofLiteral whole []).toDouble false)) := by
  refine ⟨.number (.whole hne hwhole), ?_, nofun, fun value h => by cases h; exact hfinite⟩
  intro w' rest' lexeme' heq hspells
  obtain ⟨c, whole, rfl⟩ := List.exists_cons_of_ne_nil hne
  obtain ⟨d, w', rfl, -⟩ := hspells.ne_nil
  obtain ⟨rfl, -⟩ := List.cons.inj heq
  have hc : startsNumeral c = true := by
    rw [startsNumeral, hwhole c List.mem_cons_self, Bool.true_or]
  obtain ⟨whole', fraction', hn, -⟩ := hspells.numeral hc
  generalize c :: w' = literal at hn heq
  cases hn with
  | whole _ hdigits => exact length_le_of_digits hafter hwhole hdigits heq
  | point hdigits _ _ =>
    -- both splits end the digits in front at the same place, so a point would follow
    have split := splitDigits_of_digits hwhole hafter
    rw [heq, List.append_assoc, splitDigits_of_digits hdigits rfl] at split
    exact absurd (by rw [← (Prod.mk.inj split).2]; rfl) hpoint

/-- Digits behind a point are the longest number at their place if no digit follows. -/
theorem taken_point {after : List Char} (hwhole : Digits whole) (hne : fraction ≠ [])
    (hfraction : Digits fraction) (hafter : after.head?.all (fun c => !c.isDigit) = true)
    (hfinite : ((Decimal.ofLiteral whole fraction).toDouble false).isFinite = true) :
    Taken (whole ++ '.' :: fraction) after
      (.number ((Decimal.ofLiteral whole fraction).toDouble false)) := by
  have hnumeral : IsNumeral whole fraction (whole ++ '.' :: fraction) := .point hwhole hne hfraction
  refine ⟨.number hnumeral, ?_, nofun, fun value h => by cases h; exact hfinite⟩
  intro w' rest' lexeme' heq hspells
  obtain ⟨c, w, hw, hc⟩ := hnumeral.head
  obtain ⟨d, w', rfl, -⟩ := hspells.ne_nil
  have hd : c = d := by
    rw [hw] at heq
    exact (List.cons.inj heq).1
  rw [hd] at hc
  obtain ⟨whole', fraction', hn, -⟩ := hspells.numeral hc
  generalize d :: w' = literal at hn heq
  have split := @splitDigits_of_digits whole ('.' :: (fraction ++ after)) hwhole rfl
  rw [List.append_assoc, List.cons_append] at heq
  rw [heq] at split
  cases hn with
  | whole _ hdigits =>
    have hnext : ('.' :: (fraction ++ after)).head?.all (fun c => !c.isDigit) = true := rfl
    have := length_le_of_digits hnext hwhole hdigits heq
    rw [List.length_append]
    omega
  | point hdigits _ hdigits' =>
    rw [List.append_assoc, splitDigits_of_digits hdigits rfl, Prod.mk.injEq] at split
    obtain ⟨rfl, htail⟩ := split
    have := length_le_of_digits hafter hfraction hdigits' (List.cons.inj htail).2.symm
    simp only [List.length_append, List.length_cons]
    omega

/-- A number that the scanner takes is one of the grammar. -/
theorem taken_of_numberAt (hc : startsNumeral c = true)
    (h : numberAt pos (c :: rest) = .ok (lexeme, more)) :
    ∃ w after, c :: rest = w ++ after ∧ more = w.length - 1 ∧ Taken w after lexeme := by
  obtain ⟨whole, after, hsplit, htext, hwhole, hafter⟩ := splitDigits_spec (c :: rest)
  by_cases hpoint : after.head? = some '.'
  · obtain ⟨tail, rfl⟩ := List.head?_eq_some_iff.1 hpoint
    obtain ⟨fraction, after', hsplit', rfl, hfraction, hafter'⟩ := splitDigits_spec tail
    rw [numberAt_point (by rw [hsplit]), hsplit, hsplit'] at h
    dsimp only at h
    split at h
    · cases h
    · next hne =>
      obtain ⟨rfl, hfinite, rfl⟩ := numberOf_eq_ok h
      refine ⟨whole ++ '.' :: fraction, after', by rw [htext]; simp, rfl, ?_⟩
      exact taken_point hwhole (by simpa using hne) hfraction hafter' hfinite
  · rw [numberAt_whole (by rw [hsplit]; exact hpoint), hsplit] at h
    obtain ⟨rfl, hfinite, rfl⟩ := numberOf_eq_ok h
    refine ⟨whole, after, htext, rfl, taken_whole ?_ hwhole hafter hpoint hfinite⟩
    rintro rfl
    -- without digits in front the first character is the point
    rw [List.nil_append] at htext
    rw [← htext] at hpoint hafter
    rw [startsNumeral, Bool.or_eq_true, decide_eq_true_eq] at hc
    rcases hc with hdigit | rfl
    · simp [hdigit] at hafter
    · exact hpoint rfl

/-! ### Symbols -/

/-- A symbol that is found is written in the characters that it takes. -/
theorem text_of_symbol? {s : Symbol} (h : symbol? c rest = some (s, more)) :
    s.text.toList = c :: rest.take more := by
  unfold symbol? at h
  split at h <;> cases h <;> rfl

/-- These are symbols also where no second character makes them longer. -/
theorem symbol?_alone (hc : c = '<' ∨ c = '>' ∨ c = '!') (rest : List Char) :
    ∃ s more, symbol? c rest = some (s, more) := by
  rcases hc with rfl | rfl | rfl <;> (unfold symbol?; split <;> simp_all)

/-- Where a symbol is written, one at least as long is found. -/
theorem symbol?_of_text {s : Symbol} (h : s.text.toList = c :: w) (rest : List Char) :
    ∃ s' more, symbol? c (w ++ rest) = some (s', more) ∧ w.length ≤ more := by
  have alone {d : Char} (hd : d = '<' ∨ d = '>' ∨ d = '!') (h : [d] = c :: w) :
      ∃ s' more, symbol? c (w ++ rest) = some (s', more) ∧ w.length ≤ more := by
    obtain ⟨rfl, rfl⟩ := List.cons.inj h
    obtain ⟨s', more, hfound⟩ := symbol?_alone hd rest
    exact ⟨s', more, hfound, Nat.zero_le _⟩
  cases s with
  | less => exact alone (.inl rfl) h
  | greater => exact alone (.inr (.inl rfl)) h
  | bang => exact alone (.inr (.inr rfl)) h
  | _ => cases h; exact ⟨_, _, rfl, Nat.le_refl _⟩

/-- No two symbols are written alike. -/
theorem Symbol.text_injective {s s' : Symbol} (h : s.text.toList = s'.text.toList) : s = s' := by
  have hs := readsBack_symbol s
  have hs' := readsBack_symbol s'
  rw [Lexeme.ReadsBack, Lexeme.written] at hs hs'
  rw [h, hs'] at hs
  cases hs
  rfl

/-- A symbol that the scanner reads is the longest at its place. -/
theorem taken_symbol {s : Symbol} (hnumeral : startsNumeral c = false)
    (hsegment : startsSegment c = false) (h : symbol? c rest = some (s, more)) :
    Taken (c :: rest.take more) (rest.drop more) (.symbol s) := by
  refine ⟨text_of_symbol? h ▸ .symbol s, longest_cons ?_, nofun, fun _ h => by cases h⟩
  intro w' rest' lexeme' heq hspells
  rw [List.take_append_drop] at heq
  obtain ⟨s', hs', -⟩ := hspells.isSymbol hnumeral hsegment
  obtain ⟨s'', more', hfound, hlength⟩ := symbol?_of_text hs' rest'
  rw [← heq, h] at hfound
  cases hfound
  rwa [List.length_take_of_le (symbol?_le h)]

/-! ### The step of the scanner -/

/-- **What the scanner takes is the longest lexeme at its place.** -/
theorem taken_of_lexemeAt (h : lexemeAt pos c rest = .ok (lexeme, more)) :
    Taken (c :: rest.take more) (rest.drop more) lexeme := by
  rw [lexemeAt_eq] at h
  split at h
  · next hc =>
    obtain ⟨w, after, htext, rfl, htaken⟩ := taken_of_numberAt hc h
    obtain ⟨d, w, rfl, -⟩ := htaken.spells.ne_nil
    obtain rfl : c = d := (List.cons.inj htext).1
    obtain rfl : rest = w ++ after := (List.cons.inj htext).2
    rwa [List.length_cons, Nat.add_sub_cancel, List.take_left, List.drop_left]
  · next hnumeral =>
    split at h
    · next hc =>
      rw [nameAt] at h
      split at h
      · next hn =>
        cases h
        exact taken_name hc hn
      · cases h
    · next hsegment =>
      split at h
      · next s _ hs =>
        cases h
        exact taken_symbol (by simpa using hnumeral) (by simpa using hsegment) hs
      · cases h

/-- A segment with one character more is a segment. -/
theorem IsSegment.concat {d : Char} (h : IsSegment w) (hd : inSegment d = true) :
    IsSegment (w ++ [d]) := by
  obtain ⟨hc, hw⟩ := h
  refine .mk hc fun e he => ?_
  rcases List.mem_append.1 he with he | he
  · exact hw e he
  · rw [List.mem_singleton.1 he]
    exact hd

/-- A name with one character more is a name, so a shorter one is not the longest. -/
theorem IsName.concat {d : Char} (h : IsName text) (hd : inSegment d = true) :
    IsName (text ++ [d]) := by
  induction h with
  | segment hs => exact .segment (hs.concat hd)
  | joined hs _ ih =>
    rw [List.append_assoc, List.cons_append]
    exact .joined hs ih

/-- A number with one digit more is a number. -/
theorem IsNumeral.concat {d : Char} (h : IsNumeral whole fraction text) (hd : d.isDigit = true) :
    ∃ whole' fraction', IsNumeral whole' fraction' (text ++ [d]) := by
  have single : Digits [d] := fun e he => List.mem_singleton.1 he ▸ hd
  cases h with
  | whole _ hdigits => exact ⟨_, _, .whole (by simp) (digits_append hdigits single)⟩
  | point hwhole _ hfraction =>
    refine ⟨whole, fraction ++ [d], ?_⟩
    rw [List.append_assoc, List.cons_append]
    exact .point hwhole (by simp) (digits_append hfraction single)

/-- What is taken as a lexeme cannot be spelled with more of the rest. -/
theorem Taken.not_spells (text : List Char) {later : List Char} {lexeme' : Lexeme}
    (h : Taken w (text ++ later) lexeme) (hne : text ≠ []) : ¬ Spells (w ++ text) lexeme' := by
  intro hspells
  have := h.longest (w ++ text) later lexeme' (by rw [List.append_assoc]) hspells
  have := List.length_pos_of_ne_nil hne
  rw [List.length_append] at *
  omega

/-- No digit follows a number. -/
theorem Taken.no_digit (h : Taken w rest lexeme) (hn : IsNumeral whole fraction w) :
    rest.head?.all (fun c => !c.isDigit) = true := by
  cases rest with
  | nil => rfl
  | cons d rest =>
    cases hd : d.isDigit with
    | false => simp [hd]
    | true =>
      obtain ⟨whole', fraction', hn'⟩ := hn.concat hd
      exact absurd (.number hn') (Taken.not_spells [d] h (by simp))

/-- Digits of a finite number are read as that number. -/
theorem numberOf_eq (literal : List Char)
    (h : ((Decimal.ofLiteral whole fraction).toDouble false).isFinite = true) :
    numberOf pos literal whole fraction =
      .ok (.number ((Decimal.ofLiteral whole fraction).toDouble false), literal.length - 1) := by
  rw [numberOf]
  exact if_pos h

/-- A number is taken by the scanner unless it runs into a point with no digit behind it. -/
theorem numberAt_of_taken (h : Taken w rest lexeme) (hn : IsNumeral whole fraction w)
    (hlexeme : lexeme = .number ((Decimal.ofLiteral whole fraction).toDouble false))
    (hrest : ∀ tail, rest = '.' :: tail → tail.head?.any Char.isDigit = true) :
    numberAt pos (w ++ rest) = .ok (lexeme, w.length - 1) := by
  have hdigit := h.no_digit hn
  have hfinite := h.finite _ hlexeme
  rw [hlexeme]
  cases hn with
  | whole hne hwhole =>
    have split := splitDigits_of_digits hwhole hdigit
    have hpoint : rest.head? ≠ some '.' := by
      intro hpoint
      obtain ⟨tail, rfl⟩ := List.head?_eq_some_iff.1 hpoint
      have hnext := hrest tail rfl
      cases tail with
      | nil => cases hnext
      | cons d tail =>
        have single : Digits [d] := fun e he => List.mem_singleton.1 he ▸ hnext
        exact absurd (.number (.point hwhole (by simp) single))
          (Taken.not_spells ['.', d] h (by simp))
    rw [numberAt_whole (by rw [split]; exact hpoint), split]
    exact numberOf_eq _ hfinite
  | point hwhole hne hfraction =>
    have split := @splitDigits_of_digits whole ('.' :: (fraction ++ rest)) hwhole rfl
    have split' := splitDigits_of_digits hfraction hdigit
    rw [List.append_assoc, List.cons_append, numberAt_point (congrArg Prod.snd split), split,
      split']
    dsimp only
    rw [if_neg (by simpa using hne)]
    exact numberOf_eq _ hfinite

/-- **The longest lexeme is taken by the scanner**, unless it is a number that runs into a point
with no digit behind it. -/
theorem lexemeAt_of_taken (h : Taken (c :: w) rest lexeme)
    (hrest : ∀ tail, rest = '.' :: tail → tail.head?.any Char.isDigit = true) :
    lexemeAt pos c (w ++ rest) = .ok (lexeme, w.length) := by
  rw [lexemeAt_eq]
  cases hnumeral : startsNumeral c with
  | true =>
    obtain ⟨whole, fraction, hn, hlexeme⟩ := h.spells.numeral hnumeral
    rw [if_pos rfl]
    exact numberAt_of_taken h hn hlexeme hrest
  | false =>
    rw [if_neg Bool.false_ne_true]
    cases hsegment : startsSegment c with
    | true =>
      obtain ⟨hname, hlexeme⟩ := h.spells.isName hsegment
      have hstop : rest.head?.any inSegment = false := by
        cases rest with
        | nil => rfl
        | cons d rest =>
          refine Bool.eq_false_iff.2 fun hd => ?_
          exact absurd (.name (hname.concat hd)) (Taken.not_spells [d] h (by simp))
      have hlength : nameLength (w ++ rest) = .ok w.length := by
        rw [nameLength_of_isName hname, nameLength_of_stop hstop (h.noPoint _ hlexeme)]
        rfl
      rw [if_pos rfl, nameAt, hlength, hlexeme]
      dsimp only
      rw [List.take_left]
    | false =>
      obtain ⟨s, hs, hlexeme⟩ := h.spells.isSymbol hnumeral hsegment
      obtain ⟨s', more, hfound, hle⟩ := symbol?_of_text hs rest
      have htext := text_of_symbol? hfound
      have htake := List.length_take_of_le (symbol?_le hfound)
      have hmore : more = w.length := by
        have hspells : Spells (c :: (w ++ rest).take more) (.symbol s') := htext ▸ .symbol s'
        have := h.longest _ ((w ++ rest).drop more) _ (by simp) hspells
        rw [List.length_cons, List.length_cons, htake] at this
        omega
      rw [hmore, List.take_left, ← hs] at htext
      obtain rfl := Symbol.text_injective htext
      rw [if_neg Bool.false_ne_true, hfound, hmore, hlexeme]

end Formula
end GuildRating
