/-
# Where errors point

An error of a text that is no expression names a place in it.  The scanner names the place of the
character or the number that it refuses; the parser names that of the token it refuses, or of a
parenthesis without its partner, or of the name of a call that is not closed (`points_or_ends`).

Where the text ends too early, the place should be behind all lexemes.  It is one behind the first
character of the last one, which is the same unless that has several characters
(`errors_point_unless_inside`).
-/

import GuildRating.Proofs.Grammar.Viable
import GuildRating.Proofs.Spelling

namespace GuildRating
namespace Formula

variable {pos : Nat} {c : Char} {rest text : List Char}

/-! ### The parser -/

/-- No character of the pieces stands at the place or behind it. -/
def Behind (pieces : List Piece) (pos : Nat) : Prop := ∀ p ∈ pieces, p.pos + p.text.length ≤ pos

/-- The error names what stands at its place in the text, or a place in the text behind all of its
lexemes for the end. -/
inductive Error.Points (text : List Char) : Error → Prop
  | character {pos : Nat} {c : Char} : text[pos]? = some c →
      Points text (.scan (.unexpectedCharacter pos c))
  | number {pos : Nat} {literal : String} : literal ≠ "" → literal.toList <+: text.drop pos →
      Points text (.scan (.invalidNumber pos literal))
  | token {pos : Nat} {expected : Expected} {lexeme : Lexeme} {w rest : List Char} :
      text.drop pos = w ++ rest → Taken w rest lexeme →
      Points text (.grammar (.unexpected pos expected (some lexeme)))
  | behind {pos : Nat} {expected : Expected} {pieces : List Piece} : Splits 0 text pieces →
      Behind pieces pos → pos ≤ text.length →
      Points text (.grammar (.unexpected pos expected none))
  | paren {pos : Nat} {c : Char} : c = '(' ∨ c = ')' → text[pos]? = some c →
      Points text (.grammar (.unbalanced pos))
  | call {pos : Nat} {name : String} {w blanks rest : List Char} :
      text.drop pos = w ++ (blanks ++ '(' :: rest) →
      Taken w (blanks ++ '(' :: rest) (.name name) → (∀ c ∈ blanks, Text.isBlank c = true) →
      Points text (.grammar (.unbalanced pos))
  /-- An error without a place. -/
  | placeless {e : GrammarError} : e = .empty ∨ (∃ limit, e = .tooDeep limit) →
      Points text (.grammar e)

/-- The text ends too early, and its last lexeme has several characters. -/
def Error.EndsInside (text : List Char) (e : Error) : Prop :=
  (∃ pos expected, e = .grammar (.unexpected pos expected none)) ∧
    ∃ before last, Splits 0 text (before ++ [last]) ∧ 1 < last.text.length

/-- A symbol is spelled in one way. -/
theorem Spells.of_symbol {s : Symbol} (h : Spells text (.symbol s)) : text = s.text.toList := by
  cases h
  rfl

/-- The characters at the place of a token. -/
theorem exists_taken {pieces : List Piece} {lexeme : Lexeme} (h : Splits 0 text pieces)
    (htoken : ⟨lexeme, pos⟩ ∈ pieces.map Piece.toToken) :
    ∃ w rest, text.drop pos = w ++ rest ∧ Taken w rest lexeme := by
  obtain ⟨p, hp, hpiece⟩ := List.mem_map.1 htoken
  obtain ⟨before, later, rfl⟩ := List.append_of_mem hp
  obtain ⟨k, rest, hpos, htext, htaken, -⟩ := h.at_piece
  rw [hpiece] at hpos htaken
  obtain rfl : pos = k := by rwa [Nat.zero_add] at hpos
  exact ⟨p.text, rest, htext, htaken⟩

/-- Where a token of one character is, the text has that character. -/
theorem getElem?_of_symbol {pieces : List Piece} {s : Symbol} (h : Splits 0 text pieces)
    (htoken : ⟨.symbol s, pos⟩ ∈ pieces.map Piece.toToken) (hs : s.text.toList = [c]) :
    text[pos]? = some c := by
  obtain ⟨w, rest, htext, htaken⟩ := exists_taken h htoken
  rw [htaken.spells.of_symbol, hs] at htext
  rw [← Nat.add_zero pos, ← List.getElem?_drop, htext]
  rfl

/-- A row that ends too early does so at the end, or behind a parenthesis or the name of a call. -/
theorem Grammar.Unfinished.cases {endPos : Nat} {tokens : List Token} {e : GrammarError}
    (h : Unfinished endPos tokens e) : (∃ expected, e = .unexpected endPos expected none) ∨
      ∃ pos, e = .unbalanced pos ∧ (⟨.symbol .openParen, pos⟩ ∈ tokens ∨
        ∃ before name pos' later, tokens =
          before ++ ⟨.name name, pos⟩ :: ⟨.symbol .openParen, pos'⟩ :: later) := by
  induction h with
  | ends => exact .inl ⟨_, rfl⟩
  | group _ => exact .inr ⟨_, rfl, .inl List.mem_cons_self⟩
  | call _ => exact .inr ⟨_, rfl, .inr ⟨[], _, _, _, rfl⟩⟩
  | @cons _ token _ _ ih =>
    rcases ih with h | ⟨pos, he, hopen | ⟨before, name, pos', later, htokens⟩⟩
    · exact .inl h
    · exact .inr ⟨pos, he, .inl (List.mem_cons_of_mem _ hopen)⟩
    · exact .inr ⟨pos, he, .inr ⟨token :: before, name, pos', later, by rw [htokens]; rfl⟩⟩

/-- The name of a call and what stands behind it. -/
theorem points_call {pieces : List Piece} {before later : List Token} {name : String} {pos' : Nat}
    (h : Splits 0 text pieces) (htokens : pieces.map Piece.toToken =
      before ++ ⟨.name name, pos⟩ :: ⟨.symbol .openParen, pos'⟩ :: later) :
    Error.Points text (.grammar (.unbalanced pos)) := by
  obtain ⟨first, others, rfl, -, hothers⟩ := List.map_eq_append_iff.1 htokens
  obtain ⟨p, others, rfl, hp, hothers⟩ := List.map_eq_cons_iff.1 hothers
  obtain ⟨q, others, rfl, hq, -⟩ := List.map_eq_cons_iff.1 hothers
  obtain ⟨k, rest, hpos, htext, htaken, hlater⟩ := h.at_piece
  obtain ⟨blanks, rest, rfl, hblanks, -, hparen, -⟩ := hlater.head
  rw [hq] at hparen
  rw [hp] at hpos htaken
  rw [hparen.spells.of_symbol] at htext htaken
  rw [Nat.zero_add] at hpos
  rw [← hpos] at htext
  exact .call htext htaken hblanks

/-- **The parser points at what it refuses**, or the row ends too early. -/
theorem points_or_ends {pieces : List Piece} {limit : Nat} {e : GrammarError}
    (h : Splits 0 text pieces) (hparse : Expr.parse limit (pieces.map Piece.toToken) = .error e) :
    Error.Points text (.grammar e) ∧ (∀ pos expected, e ≠ .unexpected pos expected none) ∨
      pieces ≠ [] ∧
        ∃ expected, e = .unexpected (Expr.endOf (pieces.map Piece.toToken)) expected none := by
  by_cases hne : pieces = []
  · rw [hne, List.map_nil, Expr.parse_nil] at hparse
    cases hparse
    exact .inl ⟨.placeless (.inl rfl), nofun⟩
  by_cases hroom : e = .tooDeep limit
  · subst hroom
    exact .inl ⟨.placeless (.inr ⟨limit, rfl⟩), nofun⟩
  cases Grammar.located_of_parse (mt List.map_eq_nil_iff.1 hne) hparse hroom with
  | @token lexeme pos expected hhopeless =>
    obtain ⟨before, later, htokens, -⟩ := hhopeless
    have hmem : ⟨lexeme, pos⟩ ∈ pieces.map Piece.toToken := by
      rw [htokens]
      simp
    obtain ⟨w, rest, htext, htaken⟩ := exists_taken h hmem
    exact .inl ⟨.token htext htaken, nofun⟩
  | @surplus pos hhopeless =>
    obtain ⟨before, later, htokens, -⟩ := hhopeless
    have hmem : ⟨.symbol .closeParen, pos⟩ ∈ pieces.map Piece.toToken := by
      rw [htokens]
      simp
    exact .inl ⟨.paren (.inr rfl) (getElem?_of_symbol h hmem rfl), nofun⟩
  | unfinished hunfinished _ _ =>
    rcases hunfinished.cases with hends | ⟨pos, rfl, hopen | ⟨before, name, pos', later, htokens⟩⟩
    · exact .inr ⟨hne, hends⟩
    · exact .inl ⟨.paren (.inl rfl) (getElem?_of_symbol h hopen rfl), nofun⟩
    · exact .inl ⟨points_call h htokens, nofun⟩

/-! ### The end -/

/-- The place for the end is one behind the first character of the last piece. -/
theorem endOf_concat (before : List Piece) (last : Piece) :
    Expr.endOf ((before ++ [last]).map Piece.toToken) = last.pos + 1 := by
  rw [Expr.endOf, List.map_append, List.map_singleton, List.getLast?_concat]

/-- That place is behind all pieces only if the last one has a single character. -/
theorem behind_concat_iff {before : List Piece} {last : Piece}
    (h : Splits 0 text (before ++ [last])) :
    Behind (before ++ [last]) (last.pos + 1) ↔ ¬ 1 < last.text.length := by
  have earlier : ∀ p ∈ before, p.pos + p.text.length ≤ last.pos := fun p hp =>
    (List.pairwise_append.1 h.pairwise).2.2 p hp last (List.mem_singleton_self last)
  rw [Behind, List.forall_mem_append, List.forall_mem_singleton]
  constructor
  · intro hbehind
    omega
  · intro hlength
    exact ⟨fun p hp => Nat.le_succ_of_le (earlier p hp), by omega⟩

/-- The place behind the first character of the last piece is still in the text, or just behind it.
-/
theorem succ_le_of_piece {before : List Piece} {last : Piece}
    (h : Splits 0 text (before ++ [last])) : last.pos + 1 ≤ text.length := by
  obtain ⟨k, rest, hpos, htext, htaken, -⟩ := h.at_piece
  obtain ⟨c, w, hw, -⟩ := htaken.spells.ne_nil
  have := congrArg List.length htext
  rw [hw, List.length_drop] at this
  simp only [List.length_append, List.length_cons] at this
  omega

variable {limits : Limits} {source : String} {e : Error}

/-- Either the error points, or it is for the end, and points one behind the first character of the
last piece. -/
theorem points_or_ends_of_read (hlength : source.length ≤ limits.maxLength)
    (h : read limits source = .error e) :
    e.Points source.toList ∧ (∀ pos expected, e ≠ .grammar (.unexpected pos expected none)) ∨
      ∃ expected before last, Splits 0 source.toList (before ++ [last]) ∧
        e = .grammar (.unexpected (last.pos + 1) expected none) := by
  rw [read, scan_of_le hlength] at h
  cases hscan : scanFrom 0 source.toList with
  | error e' =>
    rw [hscan] at h
    cases h
    have hpoints := scanFrom_points 0 source.toList e' hscan
    refine .inl ⟨?_, fun pos expected he => by cases he⟩
    cases e' with
    | unexpectedCharacter pos c =>
      obtain ⟨k, hpos, hc⟩ := hpoints
      rw [Nat.zero_add] at hpos
      exact .character (hpos ▸ hc)
    | invalidNumber pos literal =>
      obtain ⟨k, hpos, hne, hliteral⟩ := hpoints
      rw [Nat.zero_add] at hpos
      exact .number hne (hpos ▸ hliteral)
    | tooLong => exact hpoints.elim
  | ok tokens =>
    obtain ⟨pieces, hsplits, rfl⟩ := splits_of_scanFrom 0 source.toList hscan
    rw [hscan, mapError_ok, ok_bind] at h
    cases hparse : Expr.parse limits.maxDepth (pieces.map Piece.toToken) with
    | ok tree =>
      rw [hparse] at h
      cases h
    | error e' =>
      rw [hparse] at h
      cases h
      rcases points_or_ends hsplits hparse with ⟨hpoints, hne⟩ | ⟨hne, expected, rfl⟩
      · exact .inl ⟨hpoints, fun pos expected he => hne pos expected (Error.grammar.inj he)⟩
      · obtain ⟨before, last, rfl⟩ : ∃ before last, pieces = before ++ [last] :=
          ⟨_, _, (List.dropLast_append_getLast hne).symm⟩
        exact .inr ⟨expected, before, last, hsplits, by rw [endOf_concat]⟩

/-- Where the scanner found a symbol last, the last piece has its characters. -/
theorem last_eq_of_scanFrom {text : List Char} {before : List Piece} {last : Piece}
    {tokens : List Token} {s : Symbol} {pos : Nat} (h : Splits 0 text (before ++ [last]))
    (hscan : scanFrom 0 text = .ok (tokens ++ [⟨.symbol s, pos⟩])) :
    last.text = s.text.toList := by
  have found := Except.ok.inj (h.scanFrom.symm.trans hscan)
  rw [List.map_append, List.map_singleton] at found
  obtain ⟨-, hlast⟩ := List.append_inj' found rfl
  obtain ⟨hspells, -⟩ := h.placed last List.mem_concat_self
  rw [List.singleton_inj.1 hlast] at hspells
  exact hspells.of_symbol

/-- **Errors point into the text at what they name**, except where the text ends too early behind a
lexeme of several characters: there the place is one behind the first character of that lexeme, so
others of its characters stand at the place or behind it. -/
theorem errors_point_unless_inside (limits : Limits) (source : String) (e : Error)
    (hlength : source.length ≤ limits.maxLength) (h : read limits source = .error e) :
    (e.Points source.toList ↔ ¬ e.EndsInside source.toList) ∧
    ∀ pos expected, e = .grammar (.unexpected pos expected none) →
      ∃ before last, Splits 0 source.toList (before ++ [last]) ∧ pos = last.pos + 1 ∧
        pos ≤ source.length := by
  rcases points_or_ends_of_read hlength h with ⟨hpoints, hne⟩ | ⟨expected, before, last, hs, rfl⟩
  · refine ⟨⟨fun _ hends => ?_, fun _ => hpoints⟩, fun pos expected he => absurd he (hne _ _)⟩
    obtain ⟨⟨pos, expected, he⟩, -⟩ := hends
    exact hne _ _ he
  · have hbound := succ_le_of_piece hs
    refine ⟨⟨?_, ?_⟩, ?_⟩
    · rintro hpoints ⟨-, before', last', hs', hlong⟩
      cases hpoints with
      | behind hs'' hbehind _ =>
        obtain rfl := hs''.unique hs
        obtain ⟨-, hlast⟩ := List.append_inj' (hs.unique hs') rfl
        cases hlast
        exact (behind_concat_iff hs).1 hbehind hlong
      | placeless he => rcases he with he | ⟨limit, he⟩ <;> cases he
    · intro hends
      have hshort : ¬ 1 < last.text.length := fun hlong =>
        hends ⟨⟨_, _, rfl⟩, before, last, hs, hlong⟩
      exact .behind hs ((behind_concat_iff hs).2 hshort) hbound
    · intro pos expected he
      cases he
      exact ⟨before, last, hs, rfl, hbound⟩

/-- With nothing behind `+` the place is the end; behind `&&` it is that of the second character. -/
theorem errors_point_unless_inside_and :
    (read .standard "ones +" = .error (.grammar (.unexpected 6 .operand none)) ∧
      Error.Points "ones +".toList (.grammar (.unexpected 6 .operand none))) ∧
    read .standard "ones &&" = .error (.grammar (.unexpected 6 .operand none)) ∧
      ¬ Error.Points "ones &&".toList (.grammar (.unexpected 6 .operand none)) := by
  have plus : read .standard "ones +" = .error (.grammar (.unexpected 6 .operand none)) := by cbv
  have both : read .standard "ones &&" = .error (.grammar (.unexpected 6 .operand none)) := by cbv
  refine ⟨⟨plus, ?_⟩, both, ?_⟩
  · obtain ⟨points, -⟩ := errors_point_unless_inside .standard "ones +" _ (by decide) plus
    refine points.2 fun hends => ?_
    obtain ⟨-, before, last, hs, hlong⟩ := hends
    have scanned : scanFrom 0 "ones +".toList =
        .ok ([⟨.name "ones", 0⟩] ++ [⟨.symbol .plus, 5⟩]) := by cbv
    rw [last_eq_of_scanFrom hs scanned] at hlong
    exact absurd hlong (by decide)
  · obtain ⟨points, ends⟩ := errors_point_unless_inside .standard "ones &&" _ (by decide) both
    obtain ⟨before, last, hs, -⟩ := ends 6 .operand rfl
    have scanned : scanFrom 0 "ones &&".toList =
        .ok ([⟨.name "ones", 0⟩] ++ [⟨.symbol .andAnd, 5⟩]) := by cbv
    refine mt points.1 (not_not_intro ⟨⟨6, .operand, rfl⟩, before, last, hs, ?_⟩)
    rw [last_eq_of_scanFrom hs scanned]
    decide

end Formula
end GuildRating
