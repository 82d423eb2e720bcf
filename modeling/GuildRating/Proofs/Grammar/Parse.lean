/-
# The parser decides the grammar

`Expr.parse` gives a row of tokens the tree that the grammar derives for it, when the derivation
is nested no deeper than the limit; a deeper one is `tooDeep`, and what the grammar does not
derive is an error under every limit.  Since reading a row has one outcome, a row has at most one
tree and one nesting.
-/

import GuildRating.Proofs.Grammar.Complete
import GuildRating.Proofs.Grammar.Sound

namespace GuildRating
namespace Formula
namespace Grammar

open Formula.Expr

variable {limit n n' : Nat} {tokens : List Token} {tree tree' : Expr}

/-- **A derived row has one outcome**: its tree, or `tooDeep` when its nesting is above the
limit. -/
theorem parse_of_derives (limit : Nat) (h : Derives tokens tree n) :
    parse limit tokens = if n ≤ limit then .ok tree else .error (.tooDeep limit) := by
  obtain ⟨row, rfl, hrow, rfl⟩ := h
  obtain ⟨m, row', rfl, -⟩ := hrow.head
  have hread (frame : Frame) := @IsExpression.read _ _ _ hrow frame limit [] endsExpression_nil
  simp only [List.append_nil, List.map_cons] at hread
  have hw : Within limit (m :: row') ↔ nesting (m :: row') ≤ limit :=
    within_iff_nesting_le (List.cons_ne_nil m row')
  rw [List.map_cons, parse_cons, hread, measured, Nat.zero_add]
  by_cases hn : nesting (m :: row') ≤ limit
  · rw [if_pos hn, if_pos (hw.2 hn)]
    rfl
  · rw [if_neg hn, if_neg (mt hw.1 hn)]
    rfl

/-- **A row that is parsed is derived**, nested no deeper than the limit. -/
theorem derives_of_parse (h : parse limit tokens = .ok tree) :
    ∃ n ≤ limit, Derives tokens tree n := by
  cases tokens with
  | nil =>
    rw [parse_nil] at h
    cases h
  | cons token tokens =>
    rw [parse_cons] at h
    obtain ⟨⟨tree', rest⟩, htree, h⟩ := bind_eq_ok.1 h
    obtain ⟨row, htokens, hrow, hw⟩ := readExpression_sound htree 0
    obtain ⟨m, row', rfl, -⟩ := hrow.head
    dsimp only at h
    unfold readEnd at h
    split at h
    · cases h
      rw [List.append_nil] at htokens
      rw [Nat.zero_add, within_iff_nesting_le (List.cons_ne_nil m row')] at hw
      exact ⟨_, hw, m :: row', htokens.symm, hrow, rfl⟩
    · cases h
    · cases h

/-- Under its own nesting a row is parsed, so no other derivation of it is deeper. -/
theorem Derives.eq_and_le (h : Derives tokens tree n) (h' : Derives tokens tree' n') :
    tree = tree' ∧ n' ≤ n := by
  have outcome := (parse_of_derives n h).symm.trans (parse_of_derives n h')
  rw [if_pos (Nat.le_refl n)] at outcome
  split at outcome
  · next hn => exact ⟨Except.ok.inj outcome, hn⟩
  · cases outcome

/-- **A row has at most one tree and one nesting.** -/
theorem Derives.unique (h : Derives tokens tree n) (h' : Derives tokens tree' n') :
    tree = tree' ∧ n = n' :=
  ⟨(h.eq_and_le h').1, Nat.le_antisymm (h'.eq_and_le h).2 (h.eq_and_le h').2⟩

/-- **The parser decides the grammar.**  A row of tokens is parsed to a tree exactly when it
derives that tree with a nesting within the limit; the tree and the nesting are the only ones; a
row that is nested deeper is `tooDeep`; and a row that is not derived at all is an error. -/
theorem parse_decides_grammar (limit : Nat) (tokens : List Token) :
    (∀ tree, parse limit tokens = .ok tree ↔ ∃ n ≤ limit, Derives tokens tree n) ∧
    (∀ tree tree' n n', Derives tokens tree n → Derives tokens tree' n' →
      tree = tree' ∧ n = n') ∧
    (∀ tree n, Derives tokens tree n → limit < n →
      parse limit tokens = .error (.tooDeep limit)) ∧
    ((∀ tree n, ¬ Derives tokens tree n) → ∃ e, parse limit tokens = .error e) := by
  refine ⟨?_, ?_, ?_, ?_⟩
  · intro tree
    constructor
    · exact derives_of_parse
    · rintro ⟨n, hn, h⟩
      rw [parse_of_derives limit h, if_pos hn]
  · intro tree tree' n n' h h'
    exact h.unique h'
  · intro tree n h hn
    rw [parse_of_derives limit h, if_neg (Nat.not_le_of_lt hn)]
  · intro h
    cases hparse : parse limit tokens with
    | error e => exact ⟨e, rfl⟩
    | ok tree =>
      obtain ⟨n, -, hder⟩ := derives_of_parse hparse
      exact absurd hder (h tree n)

/-- The tokens of `!(-x)`. -/
def groupedTokens : List Token :=
  [⟨.symbol .bang, 0⟩, ⟨.symbol .openParen, 1⟩, ⟨.symbol .minus, 2⟩, ⟨.name "x", 3⟩,
    ⟨.symbol .closeParen, 4⟩]

/-- The row is nested four deep: in two operators, one group and the expression itself. -/
theorem derives_groupedTokens :
    Derives groupedTokens (.unary .not (.unary .neg (.var "x"))) 4 := by
  have lift {k row tree} (h : IsOperand k row tree) : IsExpression k row tree :=
    .plain (h.operation (Nat.zero_le 6))
  exact ⟨[⟨⟨.symbol .bang, 0⟩, 0⟩, ⟨⟨.symbol .openParen, 1⟩, 1⟩, ⟨⟨.symbol .minus, 2⟩, 2⟩,
      ⟨⟨.name "x", 3⟩, 3⟩, ⟨⟨.symbol .closeParen, 4⟩, 1⟩], rfl,
    lift (.unary (by decide) (.atom (.group (lift (.unary (by decide) (.atom .var)))))), rfl⟩

/-- `!(-x)` is nested four deep: it is parsed at the limit four and too deep at the limit three,
and it has no other tree. -/
theorem parse_groupedTokens :
    parse 4 groupedTokens = .ok (.unary .not (.unary .neg (.var "x"))) ∧
    parse 3 groupedTokens = .error (.tooDeep 3) ∧
    ∀ tree n, Derives groupedTokens tree n →
      .unary .not (.unary .neg (.var "x")) = tree ∧ 4 = n :=
  ⟨((parse_decides_grammar 4 groupedTokens).1 _).2 ⟨4, Nat.le_refl 4, derives_groupedTokens⟩,
    (parse_decides_grammar 3 groupedTokens).2.2.1 _ _ derives_groupedTokens (by decide),
    fun tree n => (parse_decides_grammar 3 groupedTokens).2.1 _ tree 4 n derives_groupedTokens⟩

end Grammar
end Formula
end GuildRating
