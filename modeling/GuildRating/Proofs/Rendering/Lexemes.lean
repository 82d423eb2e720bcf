/-
# The lexemes of a rendered tree

A tree is rendered with every operation in parentheses; `Expr.lexemes` is the row of lexemes that
the rendering consists of.  As an atom the row derives the tree again, with a nesting that the tree
alone determines (`Expr.renderNesting`): a binary operation costs the level of its group, a unary
one costs its group and its operand.  That is less than twice the depth of the tree
(`isAtom_lexemes`).  And apart from symbols, a tree has no lexemes but those of the row that it was
derived from (`IsExpression.forall_lexemes`).
-/

import GuildRating.Proofs.Grammar.Basic

namespace GuildRating
namespace Formula

/-- The symbol that an operator is written with. -/
def UnaryOp.symbol : UnaryOp → Symbol
  | neg => .minus
  | not => .bang

/-- The symbol that an operator is written with. -/
def BinaryOp.symbol : BinaryOp → Symbol
  | add => .plus
  | sub => .minus
  | mul => .star
  | div => .slash
  | rem => .percent
  | less => .less
  | lessEqual => .lessEqual
  | greater => .greater
  | greaterEqual => .greaterEqual
  | equal => .equalEqual
  | notEqual => .notEqual
  | and => .andAnd
  | or => .orOr

namespace Expr

mutual

/-- The lexemes that a tree is rendered with. -/
def lexemes : Expr → List Lexeme
  | number value => [.number value]
  | var name => [.name name]
  | unary op operand =>
    .symbol .openParen :: .symbol op.symbol :: (operand.lexemes ++ [.symbol .closeParen])
  | binary op left right =>
    .symbol .openParen ::
      (left.lexemes ++ .symbol op.symbol :: (right.lexemes ++ [.symbol .closeParen]))
  | conditional condition whenTrue whenFalse =>
    .symbol .openParen :: (condition.lexemes ++ .symbol .question ::
      (whenTrue.lexemes ++ .symbol .colon :: (whenFalse.lexemes ++ [.symbol .closeParen])))
  | call name args =>
    .name name :: .symbol .openParen :: (allLexemes args ++ [.symbol .closeParen])

/-- The lexemes of arguments with commas between them. -/
def allLexemes : List Expr → List Lexeme
  | [] => []
  | arg :: rest => arg.lexemes ++ laterLexemes rest

/-- The lexemes of arguments with a comma before each. -/
def laterLexemes : List Expr → List Lexeme
  | [] => []
  | arg :: rest => .symbol .comma :: (arg.lexemes ++ laterLexemes rest)

end

mutual

/-- The nesting of a rendered tree: that of its deepest part, and what stands around it. -/
def renderNesting : Expr → Nat
  | number _ => 1
  | var _ => 1
  | unary _ operand => 2 + operand.renderNesting
  | binary _ left right => 1 + max left.renderNesting right.renderNesting
  | conditional condition whenTrue whenFalse =>
    1 + max condition.renderNesting (1 + max whenTrue.renderNesting whenFalse.renderNesting)
  | call _ args => 1 + deepestRenderNesting args

/-- The nesting of the deepest of rendered arguments, zero when there is none. -/
def deepestRenderNesting : List Expr → Nat
  | [] => 0
  | arg :: rest => max arg.renderNesting (deepestRenderNesting rest)

end

/-- Every rendered tree is nested one deep at least. -/
theorem renderNesting_pos (e : Expr) : 0 < e.renderNesting := by
  cases e <;> rw [renderNesting] <;> omega

mutual

/-- A rendered tree is nested less than twice as deep as the tree. -/
theorem renderNesting_lt : (tree : Expr) → tree.renderNesting < 2 * tree.depth
  | number _ | var _ => by
    rw [renderNesting, depth]
    omega
  | unary _ operand => by
    have := renderNesting_lt operand
    rw [renderNesting, depth]
    omega
  | binary _ left right => by
    have := renderNesting_lt left
    have := renderNesting_lt right
    rw [renderNesting, depth]
    omega
  | conditional condition whenTrue whenFalse => by
    have := renderNesting_lt condition
    have := renderNesting_lt whenTrue
    have := renderNesting_lt whenFalse
    rw [renderNesting, depth]
    omega
  | call _ args => by
    have := deepestRenderNesting_le args
    rw [renderNesting, depth]
    omega

/-- The deepest of rendered arguments is nested less than twice as deep as their trees go down, in
the same way. -/
theorem deepestRenderNesting_le : (args : List Expr) →
    deepestRenderNesting args ≤ 2 * deepest args
  | [] => Nat.zero_le _
  | arg :: rest => by
    have := renderNesting_lt arg
    have := deepestRenderNesting_le rest
    rw [deepestRenderNesting, deepest]
    omega

end

end Expr

namespace Grammar

open Formula.Expr (lexemes allLexemes laterLexemes renderNesting deepestRenderNesting
  renderNesting_pos)

variable {k level : Nat} {row : List Mark} {tree : Expr}

/-- The parser knows the symbol of every binary operator at the level of that operator. -/
theorem symbol_mem_operators (op : BinaryOp) : (op.symbol, op) ∈ operators op.level := by
  cases op <;> decide

/-- The parser knows the symbol of every unary operator. -/
theorem symbol_mem_unaryOperators (op : UnaryOp) : (op.symbol, op) ∈ unaryOperators := by
  cases op <;> decide

mutual

/-- **The lexemes of a tree derive it**, as an atom with `k` phrases around it, and with the nesting
of the rendered tree. -/
theorem isAtom_lexemes_exact : (tree : Expr) → (k : Nat) →
    ∃ row, IsAtom k row tree ∧ row.map (fun m => m.lexeme) = tree.lexemes ∧
      ∀ bound, Within bound row ↔ k + tree.renderNesting ≤ bound
  | .number value, k => by
    refine ⟨[⟨⟨.number value, 0⟩, k⟩], .number, rfl, fun bound => ?_⟩
    rw [within_cons, renderNesting]
    exact ⟨fun h => h.1, fun h => ⟨h, within_nil⟩⟩
  | .var name, k => by
    refine ⟨[⟨⟨.name name, 0⟩, k⟩], .var, rfl, fun bound => ?_⟩
    rw [within_cons, renderNesting]
    exact ⟨fun h => h.1, fun h => ⟨h, within_nil⟩⟩
  | .unary op operand, k => by
    -- One phrase more for the group and one for the operator.
    obtain ⟨row, hrow, hlexemes, hw⟩ := isAtom_lexemes_exact operand (k + 2)
    have inner : IsOperand (k + 1) (⟨⟨.symbol op.symbol, 0⟩, k + 1⟩ :: row) (.unary op operand) :=
      .unary (symbol_mem_unaryOperators op) (.atom hrow)
    refine ⟨_, .group (p := 0) (q := 0) (.plain (inner.operation (Nat.zero_le 6))), ?_, ?_⟩
    · simp [lexemes, hlexemes]
    · intro bound
      have hpos := renderNesting_pos operand
      simp only [within_append, within_cons, within_nil, and_true, hw, List.cons_append,
        renderNesting]
      omega
  | .binary op left right, k => by
    obtain ⟨row₁, hrow₁, hlexemes₁, hw₁⟩ := isAtom_lexemes_exact left (k + 1)
    obtain ⟨row₂, hrow₂, hlexemes₂, hw₂⟩ := isAtom_lexemes_exact right (k + 1)
    have hop := symbol_mem_operators op
    have hlevel := lt_of_mem_operators hop
    have joined := IsOperation.joined (p := 0) hop (hrow₁.operation (by omega))
      (hrow₂.operation (by omega))
    -- Inside its group the operation may be of any level.
    refine ⟨_, .group (p := 0) (q := 0) (joined.expression (by omega)), ?_, ?_⟩
    · simp [lexemes, hlexemes₁, hlexemes₂]
    · intro bound
      have hpos := renderNesting_pos left
      simp only [within_append, within_cons, within_nil, and_true, hw₁, hw₂, renderNesting]
      omega
  | .conditional condition whenTrue whenFalse, k => by
    obtain ⟨row₁, hrow₁, hlexemes₁, hw₁⟩ := isAtom_lexemes_exact condition (k + 1)
    obtain ⟨row₂, hrow₂, hlexemes₂, hw₂⟩ := isAtom_lexemes_exact whenTrue (k + 2)
    obtain ⟨row₃, hrow₃, hlexemes₃, hw₃⟩ := isAtom_lexemes_exact whenFalse (k + 2)
    have inner := IsExpression.conditional (p := 0) (q := 0) (hrow₁.operation (Nat.zero_le 6))
      hrow₂.expression hrow₃.expression
    refine ⟨_, .group (p := 0) (q := 0) inner, ?_, ?_⟩
    · simp [lexemes, hlexemes₁, hlexemes₂, hlexemes₃]
    · intro bound
      have hpos := renderNesting_pos condition
      simp only [within_append, within_cons, within_nil, and_true, hw₁, hw₂, hw₃, renderNesting]
      omega
  | .call name [], k => by
    refine ⟨_, .bareCall (p := 0) (q := 0) (r := 0), rfl, fun bound => ?_⟩
    simp only [within_cons, within_nil, and_true, renderNesting, deepestRenderNesting]
    omega
  | .call name (arg :: rest), k => by
    obtain ⟨row, hrow, hlexemes, hw⟩ :=
      isArguments_lexemes_exact (arg :: rest) (List.cons_ne_nil _ _) k
    refine ⟨_, .call (p := 0) (q := 0) (r := 0) hrow, ?_, ?_⟩
    · simp [lexemes, hlexemes]
    · intro bound
      simp only [within_append, within_cons, within_nil, and_true, hw, renderNesting]
      omega

theorem isArguments_lexemes_exact : (args : List Expr) → args ≠ [] → (k : Nat) →
    ∃ row, IsArguments k row args ∧ row.map (fun m => m.lexeme) = allLexemes args ∧
      ∀ bound, Within bound row ↔ k + 1 + deepestRenderNesting args ≤ bound
  | [], h, _ => absurd rfl h
  | [arg], _, k => by
    obtain ⟨row, hrow, hlexemes, hw⟩ := isAtom_lexemes_exact arg (k + 1)
    refine ⟨row, .one hrow.expression, ?_, fun bound => ?_⟩
    · simp [allLexemes, laterLexemes, hlexemes]
    · rw [hw, deepestRenderNesting, deepestRenderNesting]
      omega
  | arg :: next :: rest, _, k => by
    obtain ⟨row, hrow, hlexemes, hw⟩ := isAtom_lexemes_exact arg (k + 1)
    obtain ⟨row', hrow', hlexemes', hw'⟩ :=
      isArguments_lexemes_exact (next :: rest) (List.cons_ne_nil _ _) k
    refine ⟨_, .more (p := 0) hrow.expression hrow', ?_, fun bound => ?_⟩
    · rw [allLexemes] at hlexemes'
      simp [allLexemes, laterLexemes, hlexemes, hlexemes']
    · rw [deepestRenderNesting]
      simp only [within_append, within_cons, hw, hw']
      omega

end

/-- The lexemes of a tree derive it, nested less than twice as deep as the tree. -/
theorem isAtom_lexemes (tree : Expr) (k : Nat) :
    ∃ row, IsAtom k row tree ∧ row.map (fun m => m.lexeme) = tree.lexemes ∧
      Within (k + (2 * tree.depth - 1)) row := by
  obtain ⟨row, hrow, hlexemes, hw⟩ := isAtom_lexemes_exact tree k
  have := tree.renderNesting_lt
  exact ⟨row, hrow, hlexemes, (hw _).2 (by omega)⟩

/-! ### Where the lexemes of a tree come from -/

section

variable {P : Lexeme → Prop}

/-- The property holds of every lexeme of a row. -/
def Throughout (P : Lexeme → Prop) (row : List Mark) : Prop := ∀ m ∈ row, P m.lexeme

/-- A property holds throughout a row if it does throughout both parts. -/
theorem throughout_append {row' : List Mark} :
    Throughout P (row ++ row') ↔ Throughout P row ∧ Throughout P row' := List.forall_mem_append

theorem throughout_cons {m : Mark} : Throughout P (m :: row) ↔ P m.lexeme ∧ Throughout P row :=
  List.forall_mem_cons

/-- Commas are symbols, so of later arguments only the arguments themselves matter. -/
theorem forall_laterLexemes {args : List Expr} (hP : ∀ s, P (.symbol s))
    (h : ∀ l ∈ allLexemes args, P l) : ∀ l ∈ laterLexemes args, P l := by
  cases args with
  | nil => exact h
  | cons arg rest =>
    rw [laterLexemes, List.forall_mem_cons]
    exact ⟨hP _, h⟩

mutual

/-- **What holds of symbols and of a row holds of the lexemes of its tree.** -/
theorem IsExpression.forall_lexemes {k : Nat} {row : List Mark} {tree : Expr}
    (hP : ∀ s, P (.symbol s)) :
    IsExpression k row tree → Throughout P row → ∀ l ∈ tree.lexemes, P l
  | .plain h, hrow => h.forall_lexemes hP hrow
  | .conditional h₁ h₂ h₃, hrow => by
    simp only [throughout_append, throughout_cons] at hrow
    obtain ⟨hrow₁, -, hrow₂, -, hrow₃⟩ := hrow
    simp only [lexemes, List.forall_mem_cons, List.forall_mem_append]
    exact ⟨hP _, h₁.forall_lexemes hP hrow₁, hP _, h₂.forall_lexemes hP hrow₂, hP _,
      h₃.forall_lexemes hP hrow₃, hP _, fun _ h => absurd h List.not_mem_nil⟩

/-- An operation has no lexemes but those of its row, apart from symbols. -/
theorem IsOperation.forall_lexemes {level k : Nat} {row : List Mark} {tree : Expr}
    (hP : ∀ s, P (.symbol s)) :
    IsOperation level k row tree → Throughout P row → ∀ l ∈ tree.lexemes, P l
  | .operand h, hrow => h.forall_lexemes hP hrow
  | .tighter _ h, hrow => h.forall_lexemes hP hrow
  | .joined _ h₁ h₂, hrow => by
    simp only [throughout_append, throughout_cons] at hrow
    obtain ⟨hrow₁, -, hrow₂⟩ := hrow
    simp only [lexemes, List.forall_mem_cons, List.forall_mem_append]
    exact ⟨hP _, h₁.forall_lexemes hP hrow₁, hP _, h₂.forall_lexemes hP hrow₂, hP _,
      fun _ h => absurd h List.not_mem_nil⟩

/-- An operand has no lexemes but those of its row, apart from symbols. -/
theorem IsOperand.forall_lexemes {k : Nat} {row : List Mark} {tree : Expr}
    (hP : ∀ s, P (.symbol s)) :
    IsOperand k row tree → Throughout P row → ∀ l ∈ tree.lexemes, P l
  | .atom h, hrow => h.forall_lexemes hP hrow
  | .unary _ h, hrow => by
    rw [throughout_cons] at hrow
    simp only [lexemes, List.forall_mem_cons, List.forall_mem_append]
    exact ⟨hP _, hP _, h.forall_lexemes hP hrow.2, hP _, fun _ h => absurd h List.not_mem_nil⟩

/-- An atom has no lexemes but those of its row, apart from symbols. -/
theorem IsAtom.forall_lexemes {k : Nat} {row : List Mark} {tree : Expr}
    (hP : ∀ s, P (.symbol s)) :
    IsAtom k row tree → Throughout P row → ∀ l ∈ tree.lexemes, P l
  | .number, hrow => by
    rw [throughout_cons] at hrow
    simp only [lexemes, List.forall_mem_cons]
    exact ⟨hrow.1, fun _ h => absurd h List.not_mem_nil⟩
  | .var, hrow => by
    rw [throughout_cons] at hrow
    simp only [lexemes, List.forall_mem_cons]
    exact ⟨hrow.1, fun _ h => absurd h List.not_mem_nil⟩
  | .group h, hrow => by
    simp only [throughout_append, throughout_cons] at hrow
    exact h.forall_lexemes hP hrow.2.1
  | .bareCall, hrow => by
    rw [throughout_cons] at hrow
    simp only [lexemes, allLexemes, List.forall_mem_cons, List.forall_mem_append]
    exact ⟨hrow.1, hP _, fun _ h => absurd h List.not_mem_nil, hP _,
      fun _ h => absurd h List.not_mem_nil⟩
  | .call h, hrow => by
    simp only [throughout_append, throughout_cons] at hrow
    obtain ⟨hname, -, hargs, -⟩ := hrow
    simp only [lexemes, List.forall_mem_cons, List.forall_mem_append]
    exact ⟨hname, hP _, h.forall_lexemes hP hargs, hP _, fun _ h => absurd h List.not_mem_nil⟩

/-- Arguments have no lexemes but those of their row, apart from symbols. -/
theorem IsArguments.forall_lexemes {k : Nat} {row : List Mark} {args : List Expr}
    (hP : ∀ s, P (.symbol s)) :
    IsArguments k row args → Throughout P row → ∀ l ∈ allLexemes args, P l
  | .one h, hrow => by
    simp only [allLexemes, laterLexemes, List.append_nil]
    exact h.forall_lexemes hP hrow
  | .more h hrest, hrow => by
    simp only [throughout_append, throughout_cons] at hrow
    obtain ⟨harg, -, hlater⟩ := hrow
    rw [allLexemes, List.forall_mem_append]
    exact ⟨h.forall_lexemes hP harg, forall_laterLexemes hP (hrest.forall_lexemes hP hlater)⟩

end

end

end Grammar
end Formula
end GuildRating
