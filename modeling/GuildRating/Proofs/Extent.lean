/-
# A tree is no larger than its text

Each lexeme has a character and each node a token of its own, so a tree has at most as many levels
as nodes, nodes as tokens, and tokens as its text has characters.  Walks over a tree that was read
therefore need no more room than the limit of length, before any limit of the check is looked at
(`tree_fits_in_text`).

The limit of nesting gives no such bound.  An operator that joins one operand after the other nests
nothing, so chains of every length are read at the limit one (`BinaryOp.read_chain`), and each
operator adds a level to the tree.
-/

import GuildRating.Proofs.Check.Walk
import GuildRating.Proofs.Grammar.Nodes
import GuildRating.Proofs.Rendering.Stored
import GuildRating.Proofs.Scan.Split

namespace GuildRating
namespace Formula

open Grammar (IsOperation IsAtom Within nesting symbol_mem_operators lt_of_mem_operators
  size_eq_of_parse)

/-- A text has a character for each piece. -/
theorem Splits.length_le {pos : Nat} {text : List Char} {pieces : List Piece}
    (h : Splits pos text pieces) : pieces.length ≤ text.length := by
  induction h with
  | done => exact Nat.le_refl 0
  | blank _ _ ih => exact Nat.le_succ_of_le ih
  | lexeme htaken _ ih =>
    obtain ⟨c, w, rfl, -⟩ := htaken.spells.ne_nil
    rw [List.length_cons, List.length_append, List.length_cons]
    omega

/-- A text has no more tokens than characters. -/
theorem length_tokens_le_of_scan {limit : Nat} {source : String} {tokens : List Token}
    (h : scan limit source = .ok tokens) : tokens.length ≤ source.length := by
  rw [scan_of_le (length_le_of_scan h)] at h
  obtain ⟨pieces, hsplits, rfl⟩ := splits_of_scanFrom 0 source.toList h
  rw [List.length_map, ← String.length_toList]
  exact hsplits.length_le

/-- A tree has no more nodes than it was read from tokens. -/
theorem size_le_of_parse {limit : Nat} {tokens : List Token} {tree : Expr}
    (h : Expr.parse limit tokens = .ok tree) : tree.size ≤ tokens.length := by
  rw [size_eq_of_parse h]
  exact List.countP_le_length

/-! ### Chains of one operator -/

namespace BinaryOp

/-- `ones` joined with itself `n` times: `ones + ones + ones`. -/
def chainText (op : BinaryOp) : (n : Nat) → String
  | 0 => "ones"
  | n + 1 => op.chainText n ++ " " ++ op.text ++ " " ++ "ones"

/-- The tree of a chain, grouped to the left. -/
def chain (op : BinaryOp) : (n : Nat) → Expr
  | 0 => .var "ones"
  | n + 1 => .binary op (op.chain n) (.var "ones")

/-- The lexemes of a chain. -/
def chainLexemes (op : BinaryOp) : (n : Nat) → List Lexeme
  | 0 => [.name "ones"]
  | n + 1 => op.chainLexemes n ++ .symbol op.symbol :: [.name "ones"]

variable (op : BinaryOp) (n : Nat)

/-- A chain of operators is a row of operands with the operators between them. -/
theorem length_chainLexemes : (op.chainLexemes n).length = 2 * n + 1 := by
  induction n with
  | zero => rfl
  | succ n ih => rw [chainLexemes, List.length_append, ih]; rfl

/-- Each link of a chain has two nodes. -/
theorem size_chain : (op.chain n).size = 2 * n + 1 := by
  induction n with
  | zero => rfl
  | succ n ih =>
    rw [chain, Expr.size, ih, Expr.size]
    omega

/-- Each link of a chain is one level. -/
theorem depth_chain : (op.chain n).depth = n + 1 := by
  induction n with
  | zero => rfl
  | succ n ih =>
    rw [chain, Expr.depth, ih, Expr.depth]
    omega

/-- The text of a chain is scanned into its row. -/
theorem found_chainText : found (op.chainText n).toList = .ok (op.chainLexemes n) := by
  have ones : found "ones".toList = .ok [.name "ones"] := by cbv
  induction n with
  | zero => exact ones
  | succ n ih =>
    have := found_spaced op.symbol ih ones
    rw [chainText, chainLexemes]
    simpa [String.toList_append, op.text_symbol] using this

/-- However long it is, no phrase encloses a token of a chain. -/
theorem exists_row_chain : ∃ row, IsOperation op.level 0 row (op.chain n) ∧
    row.map (fun m => m.lexeme) = op.chainLexemes n ∧ Within 1 row := by
  have hop := symbol_mem_operators op
  have hlevel := lt_of_mem_operators hop
  have ones : IsAtom 0 [⟨⟨.name "ones", 0⟩, 0⟩] (.var "ones") := .var
  have hones : Within 1 [⟨⟨.name "ones", 0⟩, 0⟩] := by decide
  induction n with
  | zero => exact ⟨_, ones.operation (by omega), rfl, hones⟩
  | succ n ih =>
    obtain ⟨row, hrow, hlexemes, hw⟩ := ih
    refine ⟨_, .joined (p := 0) hop hrow (ones.operation (by omega)), ?_, ?_⟩
    · rw [List.map_append, hlexemes]
      rfl
    · exact Grammar.within_append.2 ⟨hw, Grammar.within_cons.2 ⟨Nat.one_pos, hones⟩⟩

/-- **A chain is read at every limit of nesting above zero.** -/
theorem read_chain {nested : Nat} (h : 0 < nested) : ∃ tokens,
    scan (op.chainText n).length (op.chainText n) = .ok tokens ∧
      tokens.length = 2 * n + 1 ∧ Expr.parse nested tokens = .ok (op.chain n) := by
  obtain ⟨tokens, hscan, hlexemes⟩ := lexemesOf_eq_ok.1 (op.found_chainText n)
  obtain ⟨row, hrow, hrowLexemes, hw⟩ := op.exists_row_chain n
  have hlevel := lt_of_mem_operators (symbol_mem_operators op)
  have hnesting : nesting row ≤ nested := by
    obtain ⟨m, later, rfl, -⟩ := hrow.head
    exact Nat.le_trans ((Grammar.within_iff_nesting_le (List.cons_ne_nil _ _)).1 hw) h
  refine ⟨tokens, ?_, ?_, ?_⟩
  · rw [scan_of_le (Nat.le_refl _), hscan]
  · rw [← List.length_map Token.lexeme, hlexemes, length_chainLexemes]
  · rw [parse_of_lexemes nested (hrow.expression (by omega)) (hlexemes.trans hrowLexemes.symm),
      if_neg (Nat.not_lt.2 hnesting)]

end BinaryOp

/-- **A tree is no larger than its text.**  Whatever limits of length and of nesting a text is
scanned and parsed under, its tree has at most as many levels as nodes, nodes as tokens, and tokens
as the text has characters.  So the walks that work out the depth, the size and the faults of the
names get through with no more visits under way at once than the limit of length has characters,
and there are no more nodes to visit.  The limit of nesting does not see to that: already at the
limit one, a chain of any operator is read whatever its length, as a tree with one level more than
operators, and none of the walks gets through it with a level less. -/
theorem tree_fits_in_text :
    (∀ longest nested source tokens tree, scan longest source = .ok tokens →
      Expr.parse nested tokens = .ok tree →
      (tree.depth ≤ tree.size ∧ tree.size ≤ tokens.length ∧ tokens.length ≤ source.length ∧
        source.length ≤ longest) ∧
      Expr.walk Expr.levels longest tree = some tree.depth ∧
      Expr.walk Expr.count longest tree = some tree.size ∧
      (∀ v, Expr.walk (Expr.firstFault v) longest tree = some (tree.checkNames v)) ∧
      tree.nodes.length ≤ longest) ∧
    (∀ (op : BinaryOp) (n nested : Nat), 0 < nested → ∃ tokens,
      scan (op.chainText n).length (op.chainText n) = .ok tokens ∧
      Expr.parse nested tokens = .ok (op.chain n) ∧
      tokens.length = 2 * n + 1 ∧ (op.chain n).size = 2 * n + 1 ∧ (op.chain n).depth = n + 1 ∧
      Expr.walk Expr.levels n (op.chain n) = none ∧ Expr.walk Expr.count n (op.chain n) = none ∧
      ∀ v, Expr.walk (Expr.firstFault v) n (op.chain n) = none) := by
  constructor
  · intro longest nested source tokens tree hscan hparse
    have hdepth := tree.depth_le_size
    have hsize := size_le_of_parse hparse
    have htokens := length_tokens_le_of_scan hscan
    have hlength := length_le_of_scan hscan
    have hroom : tree.depth ≤ longest := by omega
    refine ⟨⟨hdepth, hsize, htokens, hlength⟩, ?_, ?_, fun v => ?_, ?_⟩
    · rw [Expr.walk_eq Expr.fromBelow_depth, if_pos hroom]
    · rw [Expr.walk_eq Expr.fromBelow_size, if_pos hroom]
    · rw [Expr.walk_eq (Expr.fromBelow_checkNames v), if_pos hroom]
    · rw [Expr.length_nodes]
      omega
  · intro op n nested hnested
    obtain ⟨tokens, hscan, hlength, hparse⟩ := op.read_chain n hnested
    have hroom : ¬ (op.chain n).depth ≤ n := by rw [op.depth_chain]; omega
    refine ⟨tokens, hscan, hparse, hlength, op.size_chain n, op.depth_chain n, ?_, ?_,
      fun v => ?_⟩
    · rw [Expr.walk_eq Expr.fromBelow_depth, if_neg hroom]
    · rw [Expr.walk_eq Expr.fromBelow_size, if_neg hroom]
    · rw [Expr.walk_eq (Expr.fromBelow_checkNames v), if_neg hroom]

/-- The tokens of `max(ones, -(twos)) ? !threes : fours`. -/
def branchingTokens : List Token :=
  [⟨.name "max", 0⟩, ⟨.symbol .openParen, 3⟩, ⟨.name "ones", 4⟩, ⟨.symbol .comma, 8⟩,
    ⟨.symbol .minus, 10⟩, ⟨.symbol .openParen, 11⟩, ⟨.name "twos", 12⟩, ⟨.symbol .closeParen, 16⟩,
    ⟨.symbol .closeParen, 17⟩, ⟨.symbol .question, 19⟩, ⟨.symbol .bang, 21⟩, ⟨.name "threes", 22⟩,
    ⟨.symbol .colon, 29⟩, ⟨.name "fours", 31⟩]

/-- The tree that they are parsed to. -/
def branchingTree : Expr :=
  .conditional (.call "max" [.var "ones", .unary .neg (.var "twos")])
    (.unary .not (.var "threes")) (.var "fours")

/-- Thirty-six characters make fourteen tokens, eight nodes and four levels; and a product of a
hundred and one factors, in which nothing is nested, has as many levels. -/
theorem tree_fits_in_text_branching :
    scan 36 "max(ones, -(twos)) ? !threes : fours" = .ok branchingTokens ∧
    Expr.parse 4 branchingTokens = .ok branchingTree ∧
    (branchingTree.depth ≤ branchingTree.size ∧ branchingTree.size ≤ branchingTokens.length ∧
      branchingTokens.length ≤ "max(ones, -(twos)) ? !threes : fours".length ∧
      "max(ones, -(twos)) ? !threes : fours".length ≤ 36) ∧
    Expr.walk Expr.levels 36 branchingTree = some 4 ∧
    Expr.walk Expr.count 36 branchingTree = some 8 ∧
    ∃ tokens, Expr.parse 1 tokens = .ok (BinaryOp.mul.chain 100) ∧ tokens.length = 201 ∧
      Expr.walk Expr.count 100 (BinaryOp.mul.chain 100) = none := by
  have hscan : scan 36 "max(ones, -(twos)) ? !threes : fours" = .ok branchingTokens := by cbv
  have hparse : Expr.parse 4 branchingTokens = .ok branchingTree := by cbv
  obtain ⟨bounds, hlevels, hcount, -⟩ := tree_fits_in_text.1 36 4 _ _ _ hscan hparse
  obtain ⟨tokens, -, hchain, hlength, -, -, -, hstuck, -⟩ :=
    tree_fits_in_text.2 .mul 100 1 Nat.one_pos
  exact ⟨hscan, hparse, bounds, hlevels, hcount, tokens, hchain, hlength, hstuck⟩

end Formula
end GuildRating
