/-
# Rows of tokens as phrases

The grammar derives a phrase at the number of phrases that enclose it.  A row of tokens forms a
phrase (`Forms`) when it is one at every such number, so that it can be put into any other phrase
of its sort; the productions of the grammar are lemmas about such rows.
-/

import GuildRating.Proofs.Grammar.Basic

namespace GuildRating
namespace Formula
namespace Grammar

/-- The tokens are a phrase of this sort, however many phrases enclose them. -/
def Forms {α : Type} (phrase : Nat → List Mark → α → Prop) (tokens : List Token) : Prop :=
  ∀ k, ∃ row a, row.map Mark.toToken = tokens ∧ phrase k row a

namespace Forms

variable {level p q r : Nat} {symbol : Symbol} {name : String}
  {tokens tokens₁ tokens₂ tokens₃ : List Token}

/-- An atom is an operand. -/
theorem atom (h : Forms IsAtom tokens) : Forms IsOperand tokens := by
  intro k
  obtain ⟨row, tree, rfl, hrow⟩ := h k
  exact ⟨row, tree, rfl, .atom hrow⟩

/-- A unary operator and an operand are an operand. -/
theorem unary {op : UnaryOp} (hop : (symbol, op) ∈ unaryOperators) (h : Forms IsOperand tokens) :
    Forms IsOperand (⟨.symbol symbol, p⟩ :: tokens) := by
  intro k
  obtain ⟨row, tree, rfl, hrow⟩ := h (k + 1)
  exact ⟨_, _, rfl, .unary (p := p) hop hrow⟩

/-- An operand is an operation of every level. -/
theorem operation (h : Forms IsOperand tokens) (hl : level ≤ 6) :
    Forms (IsOperation level) tokens := by
  intro k
  obtain ⟨row, tree, rfl, hrow⟩ := h k
  exact ⟨row, tree, rfl, hrow.operation hl⟩

/-- An operation of the next level is one of the level. -/
theorem tighter (hl : level < 6) (h : Forms (IsOperation (level + 1)) tokens) :
    Forms (IsOperation level) tokens := by
  intro k
  obtain ⟨row, tree, rfl, hrow⟩ := h k
  exact ⟨row, tree, rfl, .tighter hl hrow⟩

/-- An operator joins an operation of its level and one of the next. -/
theorem joined {op : BinaryOp} (hop : (symbol, op) ∈ operators level)
    (h₁ : Forms (IsOperation level) tokens₁) (h₂ : Forms (IsOperation (level + 1)) tokens₂) :
    Forms (IsOperation level) (tokens₁ ++ ⟨.symbol symbol, p⟩ :: tokens₂) := by
  intro k
  obtain ⟨row₁, a, rfl, hrow₁⟩ := h₁ k
  obtain ⟨row₂, b, rfl, hrow₂⟩ := h₂ k
  exact ⟨_, _, by simp, .joined (p := p) hop hrow₁ hrow₂⟩

/-- An operation of the outermost level is an expression. -/
theorem plain (h : Forms (IsOperation 0) tokens) : Forms IsExpression tokens := by
  intro k
  obtain ⟨row, tree, rfl, hrow⟩ := h k
  exact ⟨row, tree, rfl, .plain hrow⟩

/-- A condition and two branches are an expression. -/
theorem conditional (h₁ : Forms (IsOperation 0) tokens₁) (h₂ : Forms IsExpression tokens₂)
    (h₃ : Forms IsExpression tokens₃) : Forms IsExpression
      (tokens₁ ++ ⟨.symbol .question, p⟩ :: (tokens₂ ++ ⟨.symbol .colon, q⟩ :: tokens₃)) := by
  intro k
  obtain ⟨row₁, a, rfl, hrow₁⟩ := h₁ k
  obtain ⟨row₂, b, rfl, hrow₂⟩ := h₂ (k + 1)
  obtain ⟨row₃, c, rfl, hrow₃⟩ := h₃ (k + 1)
  exact ⟨_, _, by simp, .conditional (p := p) (q := q) hrow₁ hrow₂ hrow₃⟩

/-- A number is an atom. -/
theorem number {value : Double} : Forms IsAtom [⟨.number value, p⟩] :=
  fun _ => ⟨_, _, rfl, .number⟩

/-- A name is an atom. -/
theorem var : Forms IsAtom [⟨.name name, p⟩] := fun _ => ⟨_, _, rfl, .var⟩

/-- An expression in parentheses is an atom. -/
theorem group (h : Forms IsExpression tokens) :
    Forms IsAtom (⟨.symbol .openParen, p⟩ :: (tokens ++ [⟨.symbol .closeParen, q⟩])) := by
  intro k
  obtain ⟨row, tree, rfl, hrow⟩ := h (k + 1)
  exact ⟨_, _, by simp, .group (p := p) (q := q) hrow⟩

/-- A name and empty parentheses are an atom. -/
theorem bareCall :
    Forms IsAtom [⟨.name name, p⟩, ⟨.symbol .openParen, q⟩, ⟨.symbol .closeParen, r⟩] :=
  fun _ => ⟨_, _, rfl, .bareCall⟩

/-- A name and arguments in parentheses are an atom. -/
theorem call (h : Forms IsArguments tokens) : Forms IsAtom
    (⟨.name name, p⟩ :: ⟨.symbol .openParen, q⟩ :: (tokens ++ [⟨.symbol .closeParen, r⟩])) := by
  intro k
  obtain ⟨row, args, rfl, hrow⟩ := h k
  exact ⟨_, .call name args, by simp, .call (p := p) (q := q) (r := r) hrow⟩

/-- An expression is an argument. -/
theorem one (h : Forms IsExpression tokens) : Forms IsArguments tokens := by
  intro k
  obtain ⟨row, tree, rfl, hrow⟩ := h (k + 1)
  exact ⟨row, _, rfl, .one hrow⟩

/-- A comma joins an argument to others. -/
theorem more (h : Forms IsExpression tokens₁) (h' : Forms IsArguments tokens₂) :
    Forms IsArguments (tokens₁ ++ ⟨.symbol .comma, p⟩ :: tokens₂) := by
  intro k
  obtain ⟨row₁, arg, rfl, hrow₁⟩ := h (k + 1)
  obtain ⟨row₂, args, rfl, hrow₂⟩ := h' k
  exact ⟨_, _, by simp, .more (p := p) hrow₁ hrow₂⟩

end Forms

/-- A name is an operand, whatever else is wanted. -/
theorem forms_operand_name : Forms IsOperand [⟨.name "x", 0⟩] := .atom .var

theorem forms_expression_name : Forms IsExpression [⟨.name "x", 0⟩] :=
  .plain (.operation (.atom .var) (Nat.zero_le 6))

end Grammar
end Formula
end GuildRating
