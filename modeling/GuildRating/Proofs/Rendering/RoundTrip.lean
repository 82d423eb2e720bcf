/-
# A rendered tree is read back

Rendering writes the lexemes of a tree with a space or a parenthesis wherever two of them could run
into each other, so that scanning the text finds these lexemes again (`found_render`).  Since they
derive the tree, reading a rendered tree gives the tree, under every limit of length that the text
keeps and every limit of depth from twice the depth of the tree less one (`read_render`).
-/

import GuildRating.Proofs.Rendering.Lexemes
import GuildRating.Proofs.Scan.Alone
import GuildRating.Proofs.Spelling

namespace GuildRating
namespace Formula

open Formula.Expr (lexemes allLexemes laterLexemes renderAll)

variable {text rest w : List Char} {later later' : List Lexeme} {lexeme : Lexeme} {c : Char}

/-- The lexemes that are found in a text, or why it has none. -/
def found (text : List Char) : Except ScanError (List Lexeme) := lexemesOf (scanFrom 0 text)

/-- Texts with a border between them are scanned one after the other. -/
theorem found_append (h : Border rest) (hw : found w = .ok later)
    (hrest : found rest = .ok later') : found (w ++ rest) = .ok (later ++ later') := by
  rw [found] at hw hrest
  rw [found, scanFrom_append h, lexemesOf_append, hw, scanFrom_placeless _ 0, hrest]
  rfl

/-- A space before a text changes nothing that is found in it. -/
theorem found_space : found (' ' :: rest) = found rest := by
  rw [found, scanFrom_blank (by decide)]
  exact scanFrom_placeless _ _ rest

/-- A symbol that takes one character whatever follows it. -/
theorem found_symbol {s : Symbol} (hblank : Text.isBlank c = false)
    (h : lexemeAt 0 c rest = .ok (.symbol s, 0)) (hrest : found rest = .ok later) :
    found (c :: rest) = .ok (.symbol s :: later) := by
  rw [found] at hrest
  rw [found, lexemesOf_lexeme hblank, h, mapError_ok, ok_bind]
  dsimp only
  rw [List.drop_zero, scanFrom_placeless _ 0, hrest]
  rfl

/-- A parenthesis stands for itself whatever follows it. -/
theorem found_openParen (h : found rest = .ok later) :
    found ('(' :: rest) = .ok (.symbol .openParen :: later) :=
  found_symbol (by decide) rfl h

/-- A parenthesis stands for itself whatever comes before it. -/
theorem found_closed (h : found w = .ok later) :
    found (w ++ [')']) = .ok (later ++ [.symbol .closeParen]) :=
  found_append (border_of_endsLexeme (by decide)) h (readsBack_symbol .closeParen)

/-- A symbol with spaces around it. -/
theorem found_spaced (s : Symbol) (hw : found w = .ok later) (hrest : found rest = .ok later') :
    found (w ++ ' ' :: (s.text.toList ++ ' ' :: rest)) = .ok (later ++ .symbol s :: later') := by
  have hspace : found (' ' :: rest) = .ok later' := found_space.trans hrest
  have hsymbol : found (s.text.toList ++ ' ' :: rest) = .ok (.symbol s :: later') :=
    found_append (border_of_endsLexeme (by decide)) (readsBack_symbol s) hspace
  exact found_append (border_of_endsLexeme (by decide)) hw (found_space.trans hsymbol)

/-- An equals sign alone is no symbol. -/
theorem symbol?_equal {s : Symbol} {more : Nat} (h : symbol? '=' rest = some (s, more)) :
    s = .equalEqual := by
  unfold symbol? at h
  split at h <;> simp_all

/-- The sign of a negation stands for itself unless an equals sign follows it. -/
theorem symbol?_bang (h : text.head? ≠ some '=') : symbol? '!' text = some (.bang, 0) := by
  unfold symbol?
  split <;> simp_all

/-- What starts with `=` is no operand. -/
theorem head_ne_equal (h : found text = .ok (lexeme :: later))
    (hstarts : Grammar.startsOperand lexeme = true) : text.head? ≠ some '=' := by
  intro hhead
  obtain ⟨rest, rfl⟩ := List.head?_eq_some_iff.1 hhead
  rw [found, lexemesOf_lexeme (by decide)] at h
  obtain ⟨⟨taken, more⟩, htaken, h⟩ := bind_eq_ok.1 h
  obtain ⟨others, -, h⟩ := bind_eq_ok.1 h
  cases h
  rw [mapError_eq_ok, lexemeAt, if_neg (by decide), if_neg (by decide)] at htaken
  split at htaken
  · next s _ hs =>
    cases htaken
    rw [symbol?_equal hs] at hstarts
    cases hstarts
  · cases htaken

/-- A unary operator stands directly before its operand. -/
theorem found_unary (op : UnaryOp) (h : found text = .ok (lexeme :: later))
    (hstarts : Grammar.startsOperand lexeme = true) :
    found (op.text.toList ++ text) = .ok (.symbol op.symbol :: lexeme :: later) := by
  have hhead := head_ne_equal h hstarts
  cases op with
  | neg =>
    show found ('-' :: text) = _
    exact found_symbol (by decide) rfl h
  | not =>
    show found ('!' :: text) = _
    refine found_symbol (by decide) ?_ h
    rw [lexemeAt, if_neg (by decide), if_neg (by decide), symbol?_bang hhead]
    rfl

/-- A comma and the space behind it are one lexeme. -/
theorem found_comma (h : found rest = .ok later) :
    found (',' :: ' ' :: rest) = .ok (.symbol .comma :: later) := by
  have hspace : found (' ' :: rest) = .ok later := found_space.trans h
  exact found_append (w := [',']) (border_of_endsLexeme (by decide)) (readsBack_symbol .comma)
    hspace

/-- What a tree is rendered with begins as an operand does, and not with an equals sign for
instance. -/
theorem lexemes_head (e : Expr) :
    ∃ lexeme later, e.lexemes = lexeme :: later ∧ Grammar.startsOperand lexeme = true := by
  cases e <;> exact ⟨_, _, rfl, rfl⟩

/-- An operator is rendered as its symbol is spelled. -/
theorem BinaryOp.text_symbol (op : BinaryOp) : op.symbol.text = op.text := by
  cases op <;> rfl

mutual

/-- **The lexemes of a tree are found in its rendering**, if each of them reads back. -/
theorem found_render : (e : Expr) → (∀ l ∈ e.lexemes, l.ReadsBack) →
    found e.render.toList = .ok e.lexemes
  | .number value, h => h _ List.mem_cons_self
  | .var name, h => h _ List.mem_cons_self
  | .unary op operand, h => by
    simp only [lexemes, List.forall_mem_cons, List.forall_mem_append] at h
    obtain ⟨-, -, hoperand, -⟩ := h
    have hfound := found_closed (found_render operand hoperand)
    -- Before `=` the sign of a negation would be half of another symbol.
    obtain ⟨lexeme, later, hlexemes, hstarts⟩ := lexemes_head operand
    have hinner := hfound
    rw [hlexemes] at hinner
    have := found_openParen (found_unary op hinner hstarts)
    rw [Expr.render, lexemes, hlexemes]
    simpa [String.toList_append] using this
  | .binary op left right, h => by
    simp only [lexemes, List.forall_mem_cons, List.forall_mem_append] at h
    obtain ⟨-, hleft, -, hright, -⟩ := h
    have hright' := found_closed (found_render right hright)
    have := found_openParen (found_spaced op.symbol (found_render left hleft) hright')
    rw [Expr.render, lexemes]
    simpa [String.toList_append, op.text_symbol] using this
  | .conditional condition whenTrue whenFalse, h => by
    simp only [lexemes, List.forall_mem_cons, List.forall_mem_append] at h
    obtain ⟨-, hcondition, -, htrue, -, hfalse, -⟩ := h
    have hfalse' := found_closed (found_render whenFalse hfalse)
    have hbranches := found_spaced .colon (found_render whenTrue htrue) hfalse'
    have := found_openParen
      (found_spaced .question (found_render condition hcondition) hbranches)
    rw [Expr.render, lexemes]
    simpa [String.toList_append, Symbol.text] using this
  | .call name args, h => by
    simp only [lexemes, List.forall_mem_cons, List.forall_mem_append] at h
    obtain ⟨hname, -, hargs, -⟩ := h
    have hargs' := found_closed (found_renderAll args hargs)
    have := found_append (border_of_endsLexeme (by decide)) hname (found_openParen hargs')
    rw [Expr.render, lexemes]
    simpa [String.toList_append, Lexeme.written] using this

/-- The lexemes of rendered arguments are found again, with the commas between them. -/
theorem found_renderAll : (args : List Expr) → (∀ l ∈ allLexemes args, l.ReadsBack) →
    found (", ".intercalate (renderAll args)).toList = .ok (allLexemes args)
  | [], _ => by
    rw [found]
    exact congrArg lexemesOf scanFrom_nil
  | [arg], h => by
    simp only [allLexemes, laterLexemes, List.append_nil] at h
    rw [renderAll, renderAll, String.intercalate_singleton, allLexemes, laterLexemes,
      List.append_nil]
    exact found_render arg h
  | arg :: next :: rest, h => by
    rw [allLexemes, List.forall_mem_append, laterLexemes, List.forall_mem_cons] at h
    obtain ⟨harg, -, hrest⟩ := h
    have hlater := found_renderAll (next :: rest) hrest
    have := found_append (border_of_endsLexeme (by decide)) (found_render arg harg)
      (found_comma hlater)
    rw [renderAll, renderAll, String.intercalate_cons_cons, allLexemes, laterLexemes]
    rw [renderAll, allLexemes] at this
    simpa [String.toList_append] using this

end

/-- **A rendered tree is read back.**  Whatever a tree was read from and under whatever limits, its
rendering is read as the same tree, under every limit of length that the rendering keeps and every
limit of depth from twice the depth of the tree less one. -/
theorem read_render {limits limits' : Limits} {source : String} {tree : Expr}
    (h : read limits source = .ok tree) (hlength : tree.render.length ≤ limits'.maxLength)
    (hdepth : 2 * tree.depth - 1 ≤ limits'.maxDepth) : read limits' tree.render = .ok tree := by
  obtain ⟨-, tokens, hscan, hparse⟩ := read_eq_ok h
  obtain ⟨-, -, row, rfl, hrow, -⟩ := Grammar.derives_of_parse hparse
  -- The leaves of the tree were found in the source, so they can be found again.
  have hback : ∀ l ∈ tree.lexemes, l.ReadsBack := by
    refine hrow.forall_lexemes readsBack_symbol fun m hm => ?_
    exact readsBack_of_scanFrom 0 source.toList hscan m.toToken (List.mem_map_of_mem hm)
  obtain ⟨tokens', hscan', hlexemes⟩ : ∃ tokens', scanFrom 0 tree.render.toList = .ok tokens' ∧
      tokens'.map Token.lexeme = tree.lexemes := by
    have hfound := found_render tree hback
    rw [found] at hfound
    cases hx : scanFrom 0 tree.render.toList with
    | error e =>
      rw [hx] at hfound
      cases hfound
    | ok tokens' =>
      rw [hx] at hfound
      exact ⟨tokens', rfl, Except.ok.inj hfound⟩
  obtain ⟨row', hatom, hrowLexemes, hwithin⟩ := Grammar.isAtom_lexemes tree 0
  have hnesting : Grammar.nesting row' ≤ limits'.maxDepth := by
    obtain ⟨m, later, rfl, -⟩ := hatom.head
    rw [Nat.zero_add, Grammar.within_iff_nesting_le (List.cons_ne_nil _ _)] at hwithin
    exact Nat.le_trans hwithin hdepth
  have hderives : Grammar.Derives (row'.map Grammar.Mark.toToken) tree (Grammar.nesting row') :=
    ⟨row', rfl, hatom.expression, rfl⟩
  have same : tokens'.map Token.lexeme = (row'.map Grammar.Mark.toToken).map Token.lexeme := by
    rw [hlexemes, ← hrowLexemes, List.map_map]
    rfl
  have hparse' := @Expr.parse_placeless limits'.maxDepth _ _ same
  rw [Grammar.parse_of_derives _ hderives, if_pos hnesting, mapError_ok, mapError_eq_ok] at hparse'
  rw [read, scan_of_le hlength, hscan', mapError_ok, ok_bind, hparse', mapError_ok]

/-- Neither the spaces nor the parentheses of `!(ones - -twos)` are those of its rendering, and both
are read as one tree. -/
theorem read_render_negated :
    let tree : Expr := .unary .not (.binary .sub (.var "ones") (.unary .neg (.var "twos")))
    read .standard "!(ones - -twos)" = .ok tree ∧ tree.render = "(!(ones - (-twos)))" ∧
      read ⟨19, 7, 0⟩ "(!(ones - (-twos)))" = .ok tree := by
  intro tree
  have hread : read .standard "!(ones - -twos)" = .ok tree := by cbv
  have hrender : tree.render = "(!(ones - (-twos)))" := by cbv
  refine ⟨hread, hrender, ?_⟩
  rw [← hrender]
  exact read_render hread (by rw [hrender]; decide) (by decide)

end Formula
end GuildRating
