/-
# Reading what is handed out for storage

The verdict on an accepted tree hands out its rendering as the form to store.  The rendering can be
longer than the text that the tree was read from, and it is nested by rules of its own: a chain of
unary operators costs one level a sign in the text and two in the rendering.  Its lexemes derive the
tree, so it is read as this tree or refused for its length or for its nesting (`read_of_found`).
Hence a form that was handed out is accepted again exactly when it keeps the limit of length and
its nesting keeps the limit of depth (`stored_reads_back_iff`).
-/

import GuildRating.Formula.Answers
import GuildRating.Proofs.Rendering.RoundTrip

namespace GuildRating
namespace Formula

open Grammar (IsExpression Mark nesting)

variable {limits : Limits} {source text : String} {tree : Expr}

/-- What the leaves of a tree are written as is read as them, since they were read before. -/
theorem readsBack_of_read (h : read limits source = .ok tree) :
    ∀ l ∈ tree.lexemes, l.ReadsBack := by
  obtain ⟨-, tokens, hscan, hparse⟩ := read_eq_ok h
  obtain ⟨-, -, row, rfl, hrow, -⟩ := Grammar.derives_of_parse hparse
  refine hrow.forall_lexemes readsBack_symbol fun m hm => ?_
  exact readsBack_of_scanFrom 0 source.toList hscan m.toToken (List.mem_map_of_mem hm)

/-- Being too deep has no place that could be left out. -/
theorem GrammarError.placeless_eq_tooDeep {e : GrammarError} {limit : Nat}
    (h : e.placeless = .tooDeep limit) : e = .tooDeep limit := by
  cases e with
  | tooDeep limit' => exact h
  | unexpected | unbalanced | empty => cases h

/-- Tokens with the lexemes of a row are parsed as the row derives, whatever their places. -/
theorem parse_of_lexemes (limit : Nat) {row : List Mark} {tokens : List Token}
    (hrow : IsExpression 0 row tree)
    (hlexemes : tokens.map Token.lexeme = row.map fun m => m.lexeme) :
    Expr.parse limit tokens =
      if limit < nesting row then .error (.tooDeep limit) else .ok tree := by
  have same : tokens.map Token.lexeme = (row.map Mark.toToken).map Token.lexeme := by
    rw [hlexemes, List.map_map]
    rfl
  have hparse := @Expr.parse_placeless limit _ _ same
  rw [Grammar.parse_of_derives _ ⟨row, rfl, hrow, rfl⟩] at hparse
  by_cases hdepth : nesting row ≤ limit
  · rw [if_pos hdepth, mapError_ok, mapError_eq_ok] at hparse
    rw [hparse, if_neg (Nat.not_lt.2 hdepth)]
  · rw [if_neg hdepth, mapError_error] at hparse
    rw [if_pos (Nat.not_le.1 hdepth)]
    cases hx : Expr.parse limit tokens with
    | ok tree' =>
      rw [hx] at hparse
      cases hparse
    | error e =>
      rw [hx] at hparse
      rw [GrammarError.placeless_eq_tooDeep (Except.error.inj hparse)]

/-- **A text is read by what its lexemes derive**, unless a limit refuses it. -/
theorem read_of_found (limits : Limits) {row : List Mark} (hrow : IsExpression 0 row tree)
    (hfound : found text.toList = .ok (row.map fun m => m.lexeme)) :
    read limits text =
      if limits.maxLength < text.length then
        .error (.scan (.tooLong text.length limits.maxLength))
      else if limits.maxDepth < nesting row then .error (.grammar (.tooDeep limits.maxDepth))
      else .ok tree := by
  by_cases hlength : limits.maxLength < text.length
  · rw [if_pos hlength, read, scan_of_lt hlength]
    rfl
  obtain ⟨tokens, hscan, hlexemes⟩ := lexemesOf_eq_ok.1 hfound
  rw [if_neg hlength, read, scan_of_le (Nat.not_lt.1 hlength), hscan, mapError_ok, ok_bind,
    parse_of_lexemes limits.maxDepth hrow hlexemes]
  split <;> rfl

/-- **A rendered tree is read as the tree, or refused for its length or its nesting.** -/
theorem read_rendered (limits' : Limits) (h : read limits source = .ok tree) :
    read limits' tree.render =
      if limits'.maxLength < tree.render.length then
        .error (.scan (.tooLong tree.render.length limits'.maxLength))
      else if limits'.maxDepth < tree.renderNesting then
        .error (.grammar (.tooDeep limits'.maxDepth))
      else .ok tree := by
  obtain ⟨row, hatom, hlexemes, hw⟩ := Grammar.isAtom_lexemes_exact tree 0
  have hnesting : nesting row = tree.renderNesting := by
    obtain ⟨m, later, rfl, -⟩ := hatom.head
    have hle (bound : Nat) : nesting (m :: later) ≤ bound ↔ tree.renderNesting ≤ bound := by
      rw [← Grammar.within_iff_nesting_le (List.cons_ne_nil _ _), hw, Nat.zero_add]
    exact Nat.le_antisymm ((hle _).2 (Nat.le_refl _)) ((hle _).1 (Nat.le_refl _))
  have hfound := found_render tree (readsBack_of_read h)
  rw [← hlexemes] at hfound
  rw [read_of_found limits' hatom.expression hfound, hnesting]

/-- A rendered tree is read again exactly if it keeps the limits, and as nothing but the tree. -/
theorem read_rendered_eq_ok_iff (limits' : Limits) (h : read limits source = .ok tree)
    (tree' : Expr) :
    read limits' tree.render = .ok tree' ↔
      tree' = tree ∧ tree.render.length ≤ limits'.maxLength ∧
        tree.renderNesting ≤ limits'.maxDepth := by
  rw [read_rendered limits' h]
  split
  · next hlong => exact ⟨nofun, fun kept => absurd hlong (Nat.not_lt.2 kept.2.1)⟩
  · next hshort =>
    split
    · next hdeep => exact ⟨nofun, fun kept => absurd hdeep (Nat.not_lt.2 kept.2.2)⟩
    · next hflat =>
      constructor
      · intro same
        exact ⟨(Except.ok.inj same).symm, Nat.not_lt.1 hshort, Nat.not_lt.1 hflat⟩
      · rintro ⟨rfl, -⟩
        rfl

/-- A rendered tree that is refused is too long or nested too deeply. -/
theorem of_read_rendered_eq_error {limits' : Limits} (h : read limits source = .ok tree)
    {e : Error} (he : read limits' tree.render = .error e) :
    (limits'.maxLength < tree.render.length ∧
      e = .scan (.tooLong tree.render.length limits'.maxLength)) ∨
    (limits'.maxDepth < tree.renderNesting ∧ e = .grammar (.tooDeep limits'.maxDepth)) := by
  rw [read_rendered limits' h] at he
  split at he
  · next hlong => exact .inl ⟨hlong, (Except.error.inj he).symm⟩
  · split at he
    · next hdeep => exact .inr ⟨hdeep, (Except.error.inj he).symm⟩
    · cases he

/-- What is handed out for an accepted tree is its rendering. -/
theorem eq_render_of_judge {v : Vocabulary} {normalized : String}
    (h : tree.judge v = .accepted normalized) : normalized = tree.render := by
  rw [Expr.judge] at h
  split at h
  · cases h
    rfl
  · cases h

/-- **What is handed out for storage is accepted again if it keeps the limits.**  The form handed
out for a tree that was read and accepted is the rendering of the tree.  Read again, it is refused
if it is too long, refused if its nesting is above the limit of depth, and otherwise gives the same
tree, which is accepted once more with the same form.  A tree that is not deeper than half the limit
keeps it also when it is rendered. -/
theorem stored_reads_back_iff (v : Vocabulary) {normalized : String}
    (hread : read .standard source = .ok tree) (hjudge : tree.judge v = .accepted normalized) :
    normalized = tree.render ∧
    ((∃ tree', read .standard normalized = .ok tree') ↔
      normalized.length ≤ Limits.standard.maxLength ∧
        tree.renderNesting ≤ Limits.standard.maxDepth) ∧
    (∀ tree', read .standard normalized = .ok tree' →
      tree' = tree ∧ tree'.judge v = .accepted normalized) ∧
    (∀ e, read .standard normalized = .error e →
      (Limits.standard.maxLength < normalized.length ∧
        e = .scan (.tooLong normalized.length Limits.standard.maxLength)) ∨
      (Limits.standard.maxDepth < tree.renderNesting ∧
        e = .grammar (.tooDeep Limits.standard.maxDepth))) ∧
    (2 * tree.depth ≤ Limits.standard.maxDepth →
      tree.renderNesting ≤ Limits.standard.maxDepth) := by
  obtain rfl := eq_render_of_judge hjudge
  have again := read_rendered_eq_ok_iff .standard hread
  refine ⟨rfl, ⟨?_, ?_⟩, ?_, fun e => of_read_rendered_eq_error hread, ?_⟩
  · rintro ⟨tree', htree'⟩
    exact ((again tree').1 htree').2
  · intro kept
    exact ⟨tree, (again tree).2 ⟨rfl, kept⟩⟩
  · intro tree' htree'
    obtain ⟨rfl, -⟩ := (again tree').1 htree'
    exact ⟨rfl, hjudge⟩
  · intro hdepth
    exact Nat.le_trans (Nat.le_of_lt tree.renderNesting_lt) hdepth

/-- `ones` behind that many signs. -/
def negatedOnes : Nat → Expr
  | 0 => .var "ones"
  | n + 1 => .unary .neg (negatedOnes n)

/-- In its rendering every sign costs three characters. -/
theorem length_render_negatedOnes (n : Nat) : (negatedOnes n).render.length = 3 * n + 4 := by
  induction n with
  | zero => rfl
  | succ n ih =>
    have text : UnaryOp.neg.text.length = 1 := rfl
    have brackets : "(".length = 1 ∧ ")".length = 1 := ⟨rfl, rfl⟩
    rw [negatedOnes, Expr.render, String.length_append, String.length_append, String.length_append,
      ih, text, brackets.1, brackets.2]
    omega

/-- Behind thirty-two signs `ones` is accepted, and what is handed out for it, nested one level
above the limit, is refused. -/
theorem stored_negatedOnes :
    read .standard "--------------------------------ones" = .ok (negatedOnes 32) ∧
      (negatedOnes 32).judge .full = .accepted (negatedOnes 32).render ∧
      read .standard (negatedOnes 32).render = .error (.grammar (.tooDeep 64)) := by
  have hread : read .standard "--------------------------------ones" = .ok (negatedOnes 32) := by
    cbv
  have hjudge : (negatedOnes 32).judge .full = .accepted (negatedOnes 32).render := by
    have hcheck : (negatedOnes 32).check .full .standard = .ok () := by cbv
    rw [Expr.judge, hcheck]
  refine ⟨hread, hjudge, ?_⟩
  obtain ⟨-, kept, -, refused, -⟩ := stored_reads_back_iff .full hread hjudge
  cases hagain : read .standard (negatedOnes 32).render with
  | ok tree' => exact absurd (kept.1 ⟨tree', hagain⟩).2 (by decide)
  | error e =>
    obtain ⟨hlong, -⟩ | ⟨-, rfl⟩ := refused e hagain
    · rw [length_render_negatedOnes] at hlong
      exact absurd hlong (by decide)
    · rfl

end Formula
end GuildRating
