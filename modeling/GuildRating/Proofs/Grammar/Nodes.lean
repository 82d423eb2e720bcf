/-
# The tokens that build nodes

Each number, each name, each operator and each `?` of a row becomes one node of its tree, and the
parentheses, commas and colons between them become none.  A group adds no node to what it encloses,
and a call is the node of its name, however many arguments it has.  So the nodes of a tree can be
counted on its row (`size_eq_of_parse`), whatever the limit under which the row was parsed.
-/

import GuildRating.Proofs.Grammar.Parse

namespace GuildRating
namespace Formula

/-- The lexeme becomes a node, unlike one that only separates or encloses. -/
def Lexeme.buildsNode : Lexeme → Bool
  | symbol .openParen | symbol .closeParen | symbol .comma | symbol .colon => false
  | _ => true

namespace Grammar

open Formula.Expr (size totalSize)

variable {level k : Nat} {row row' : List Mark} {token : Token} {tree : Expr}

/-- How many tokens of the row build a node. -/
def built (row : List Mark) : Nat := row.countP fun m => m.lexeme.buildsNode

/-- Two rows side by side build the nodes of both. -/
theorem built_append : built (row ++ row') = built row + built row' := List.countP_append

theorem built_cons_of_builds (h : token.lexeme.buildsNode = true) :
    built (⟨token, k⟩ :: row) = built row + 1 := List.countP_cons_of_pos h

theorem built_cons_of_not_builds (h : token.lexeme.buildsNode = false) :
    built (⟨token, k⟩ :: row) = built row :=
  List.countP_cons_of_neg (by simp [h])

/-- Binary operators build nodes. -/
theorem builds_of_mem_operators {symbol : Symbol} {op : BinaryOp}
    (h : (symbol, op) ∈ operators level) : (Lexeme.symbol symbol).buildsNode = true := by
  have hop := (of_mem_operators level _ h).1
  cases symbol with
  | openParen | closeParen | comma | colon => cases hop
  | _ => rfl

/-- Unary operators build nodes. -/
theorem builds_of_mem_unaryOperators {symbol : Symbol} {op : UnaryOp}
    (h : (symbol, op) ∈ unaryOperators) : (Lexeme.symbol symbol).buildsNode = true := by
  have builds : ∀ entry ∈ unaryOperators, (Lexeme.symbol entry.1).buildsNode = true := by decide
  exact builds _ h

mutual

/-- **A tree has one node for each token that builds one.** -/
theorem IsExpression.size_eq {k : Nat} {row : List Mark} {tree : Expr} :
    IsExpression k row tree → tree.size = built row
  | .plain h => h.size_eq
  | .conditional h₁ h₂ h₃ => by
    rw [size, h₁.size_eq, h₂.size_eq, h₃.size_eq, built_append, built_cons_of_builds rfl,
      built_append, built_cons_of_not_builds rfl]
    omega

/-- The nodes of an operation are built by its row. -/
theorem IsOperation.size_eq {level k : Nat} {row : List Mark} {tree : Expr} :
    IsOperation level k row tree → tree.size = built row
  | .operand h => h.size_eq
  | .tighter _ h => h.size_eq
  | .joined hop h₁ h₂ => by
    rw [size, h₁.size_eq, h₂.size_eq, built_append,
      built_cons_of_builds (builds_of_mem_operators hop)]
    omega

/-- The nodes of an operand are built by its row. -/
theorem IsOperand.size_eq {k : Nat} {row : List Mark} {tree : Expr} :
    IsOperand k row tree → tree.size = built row
  | .atom h => h.size_eq
  | .unary hop h => by
    rw [size, h.size_eq, built_cons_of_builds (builds_of_mem_unaryOperators hop), Nat.add_comm]

/-- The nodes of an atom are built by its row. -/
theorem IsAtom.size_eq {k : Nat} {row : List Mark} {tree : Expr} :
    IsAtom k row tree → tree.size = built row
  | .number | .var | .bareCall => rfl
  | .group h => by
    rw [h.size_eq, built_cons_of_not_builds rfl, built_append, built_cons_of_not_builds rfl]
    rfl
  | .call h => by
    rw [size, h.totalSize_eq, built_cons_of_builds rfl, built_cons_of_not_builds rfl, built_append,
      built_cons_of_not_builds rfl, Nat.add_comm]
    rfl

/-- The commas between arguments build no node. -/
theorem IsArguments.totalSize_eq {k : Nat} {row : List Mark} {args : List Expr} :
    IsArguments k row args → totalSize args = built row
  | .one h => by
    rw [totalSize, totalSize, h.size_eq, Nat.add_zero]
  | .more h hrest => by
    rw [totalSize, h.size_eq, hrest.totalSize_eq, built_append, built_cons_of_not_builds rfl]

end

/-- **A row that is parsed has as many nodes as it has tokens that build one.** -/
theorem size_eq_of_parse {limit : Nat} {tokens : List Token}
    (h : Expr.parse limit tokens = .ok tree) :
    tree.size = tokens.countP fun token => token.lexeme.buildsNode := by
  obtain ⟨-, -, row, rfl, hrow, -⟩ := derives_of_parse h
  rw [hrow.size_eq, List.countP_map]
  rfl

end Grammar
end Formula
end GuildRating
