/-
# The grammar of formulas

The rows of tokens that are expressions, as one relation for each sort of phrase:

| phrase | productions |
| --- | --- |
| expression | operation 0, perhaps followed by `? expression : expression` |
| operation `i`, for `i < 6` | operation `i + 1`, or operation `i`, operator `i`, operation `i + 1` |
| operation 6 | an operand |
| operand | an atom, or a unary operator and an operand |
| atom | a number, a name, a call, `( expression )` |
| arguments | expressions with commas between them |

A row carries with each token how many groups, arguments, branches and unary operators it stands
in (`Mark`), and a phrase is derived at the number of those around it.  The nesting of a row is
one more than the largest of these numbers (`nesting`), and `Derives` says that a row of tokens
is an expression of a given nesting.  Places of tokens do not matter to the grammar.
-/

import GuildRating.Formula.Expr.Parser

namespace GuildRating
namespace Formula
namespace Grammar

/-- A token of a row and how many groups, arguments, branches and unary operators enclose it. -/
structure Mark extends Token where
  enclosing : Nat

/-- The binary operators of a level and the symbols they are written with. -/
def operators : Nat → List (Symbol × BinaryOp)
  | 0 => [(.orOr, .or)]
  | 1 => [(.andAnd, .and)]
  | 2 => [(.equalEqual, .equal), (.notEqual, .notEqual)]
  | 3 => [(.less, .less), (.lessEqual, .lessEqual), (.greater, .greater),
      (.greaterEqual, .greaterEqual)]
  | 4 => [(.plus, .add), (.minus, .sub)]
  | 5 => [(.star, .mul), (.slash, .div), (.percent, .rem)]
  | _ => []

/-- The unary operators and the symbols they are written with. -/
def unaryOperators : List (Symbol × UnaryOp) := [(.minus, .neg), (.bang, .not)]

mutual

/-- A row is an expression, `k` enclosing it: the condition of a conditional stands beside its
branches and not inside one. -/
inductive IsExpression : Nat → List Mark → Expr → Prop where
  | plain {k row tree} : IsOperation 0 k row tree → IsExpression k row tree
  | conditional {k row₁ row₂ row₃ a b c p q} : IsOperation 0 k row₁ a →
      IsExpression (k + 1) row₂ b → IsExpression (k + 1) row₃ c →
      IsExpression k
        (row₁ ++ ⟨⟨.symbol .question, p⟩, k⟩ :: (row₂ ++ ⟨⟨.symbol .colon, q⟩, k⟩ :: row₃))
        (.conditional a b c)

/-- A row is an operation of a level, `k` enclosing it.  Operators of one level group to the
left. -/
inductive IsOperation : Nat → Nat → List Mark → Expr → Prop where
  | operand {k row tree} : IsOperand k row tree → IsOperation 6 k row tree
  | tighter {level k row tree} : level < 6 → IsOperation (level + 1) k row tree →
      IsOperation level k row tree
  | joined {level k row₁ row₂ symbol op a b p} : (symbol, op) ∈ operators level →
      IsOperation level k row₁ a → IsOperation (level + 1) k row₂ b →
      IsOperation level k (row₁ ++ ⟨⟨.symbol symbol, p⟩, k⟩ :: row₂) (.binary op a b)

/-- A row is an operand, `k` enclosing it. -/
inductive IsOperand : Nat → List Mark → Expr → Prop where
  | atom {k row tree} : IsAtom k row tree → IsOperand k row tree
  | unary {k row tree symbol op p} : (symbol, op) ∈ unaryOperators →
      IsOperand (k + 1) row tree →
      IsOperand k (⟨⟨.symbol symbol, p⟩, k⟩ :: row) (.unary op tree)

/-- A row is an atom, `k` enclosing it. -/
inductive IsAtom : Nat → List Mark → Expr → Prop where
  | number {k value p} : IsAtom k [⟨⟨.number value, p⟩, k⟩] (.number value)
  | var {k name p} : IsAtom k [⟨⟨.name name, p⟩, k⟩] (.var name)
  | group {k row tree p q} : IsExpression (k + 1) row tree →
      IsAtom k (⟨⟨.symbol .openParen, p⟩, k⟩ :: (row ++ [⟨⟨.symbol .closeParen, q⟩, k⟩])) tree
  | bareCall {k name p q r} :
      IsAtom k [⟨⟨.name name, p⟩, k⟩, ⟨⟨.symbol .openParen, q⟩, k⟩, ⟨⟨.symbol .closeParen, r⟩, k⟩]
        (.call name [])
  | call {k name row args p q r} : IsArguments k row args →
      IsAtom k
        (⟨⟨.name name, p⟩, k⟩ :: ⟨⟨.symbol .openParen, q⟩, k⟩ ::
          (row ++ [⟨⟨.symbol .closeParen, r⟩, k⟩]))
        (.call name args)

/-- A row is one argument or more, `k` enclosing their call. -/
inductive IsArguments : Nat → List Mark → List Expr → Prop where
  | one {k row arg} : IsExpression (k + 1) row arg → IsArguments k row [arg]
  | more {k row rest arg args p} : IsExpression (k + 1) row arg → IsArguments k rest args →
      IsArguments k (row ++ ⟨⟨.symbol .comma, p⟩, k⟩ :: rest) (arg :: args)

end

/-- One more than the largest number of phrases around a token of the row. -/
def nesting (row : List Mark) : Nat := 1 + row.foldr (fun m deepest => max m.enclosing deepest) 0

/-- The tokens derive the tree as an expression, by a derivation of that nesting. -/
def Derives (tokens : List Token) (tree : Expr) (depth : Nat) : Prop :=
  ∃ row, row.map Mark.toToken = tokens ∧ IsExpression 0 row tree ∧ nesting row = depth

/-- Every token of the row stands in fewer than `bound` phrases. -/
def Within (bound : Nat) (row : List Mark) : Prop := ∀ m ∈ row, m.enclosing < bound

instance (bound : Nat) (row : List Mark) : Decidable (Within bound row) :=
  inferInstanceAs (Decidable (∀ m ∈ row, m.enclosing < bound))

theorem within_nil {bound : Nat} : Within bound [] := fun _ h => absurd h List.not_mem_nil

/-- Two rows side by side keep within a bound if both do. -/
theorem within_append {bound : Nat} {row row' : List Mark} :
    Within bound (row ++ row') ↔ Within bound row ∧ Within bound row' := by
  simp only [Within, List.mem_append]
  constructor
  · intro h
    exact ⟨fun m hm => h m (.inl hm), fun m hm => h m (.inr hm)⟩
  · rintro ⟨h, h'⟩ m (hm | hm)
    · exact h m hm
    · exact h' m hm

/-- A row keeps within a bound if its first token does and the others do. -/
theorem within_cons {bound k : Nat} {token : Token} {row : List Mark} :
    Within bound (⟨token, k⟩ :: row) ↔ k < bound ∧ Within bound row := by
  simp [Within]

/-- A row that is not empty keeps within a bound exactly when its nesting does. -/
theorem within_iff_nesting_le {bound : Nat} {row : List Mark} (h : row ≠ []) :
    Within bound row ↔ nesting row ≤ bound := by
  unfold nesting
  induction row with
  | nil => exact absurd rfl h
  | cons m row ih =>
    obtain ⟨token, k⟩ := m
    rw [within_cons, List.foldr_cons]
    dsimp only
    cases row with
    | nil =>
      simp only [List.foldr_nil]
      constructor
      · rintro ⟨hk, -⟩
        omega
      · intro h
        exact ⟨by omega, within_nil⟩
    | cons m row => rw [ih (List.cons_ne_nil _ _)]; omega

/-- The lexeme can stand at the start of an operand, hence of every phrase. -/
def startsOperand : Lexeme → Bool
  | .number _ | .name _ => true
  | .symbol s => s = .openParen || s = .minus || s = .bang

mutual

/-- **An expression begins with a token that can start an operand, at its own number of phrases.**
-/
theorem IsExpression.head {k : Nat} {row : List Mark} {tree : Expr} :
    IsExpression k row tree →
      ∃ m rest, row = m :: rest ∧ m.enclosing = k ∧ startsOperand m.lexeme = true
  | .plain h => h.head
  | .conditional h _ _ => by
    obtain ⟨m, rest, rfl, hm⟩ := h.head
    exact ⟨m, _, rfl, hm⟩

/-- An operation starts with an operand, at whatever level it is. -/
theorem IsOperation.head {level k : Nat} {row : List Mark} {tree : Expr} :
    IsOperation level k row tree →
      ∃ m rest, row = m :: rest ∧ m.enclosing = k ∧ startsOperand m.lexeme = true
  | .operand h => h.head
  | .tighter _ h => h.head
  | .joined _ h _ => by
    obtain ⟨m, rest, rfl, hm⟩ := h.head
    exact ⟨m, _, rfl, hm⟩

/-- So does an operand. -/
theorem IsOperand.head {k : Nat} {row : List Mark} {tree : Expr} :
    IsOperand k row tree →
      ∃ m rest, row = m :: rest ∧ m.enclosing = k ∧ startsOperand m.lexeme = true
  | .atom h => by
    obtain ⟨m, rest, hrow, hk, hm, -⟩ := h.head
    exact ⟨m, rest, hrow, hk, hm⟩
  | .unary h _ => ⟨_, _, rfl, rfl, by
    simp only [unaryOperators, List.mem_cons, Prod.mk.injEq, List.not_mem_nil, or_false] at h
    rcases h with ⟨rfl, -⟩ | ⟨rfl, -⟩ <;> rfl⟩

/-- An atom starts as an operand does, but with no unary operator. -/
theorem IsAtom.head {k : Nat} {row : List Mark} {tree : Expr} :
    IsAtom k row tree → ∃ m rest, row = m :: rest ∧ m.enclosing = k ∧
      startsOperand m.lexeme = true ∧ unaryOp? m.lexeme = none
  | .number | .var | .group _ | .bareCall | .call _ => ⟨_, _, rfl, rfl, rfl, rfl⟩

end

/-- The first argument stands one phrase deeper than its call. -/
theorem IsArguments.head {k : Nat} {row : List Mark} {args : List Expr} :
    IsArguments k row args →
      ∃ m rest, row = m :: rest ∧ m.enclosing = k + 1 ∧ startsOperand m.lexeme = true
  | .one h => h.head
  | .more h _ => by
    obtain ⟨m, rest, rfl, hm⟩ := h.head
    exact ⟨m, _, rfl, hm⟩

/-- The table of operators agrees with what the parser asks of a lexeme. -/
theorem of_mem_operators : ∀ level, ∀ entry ∈ operators level,
    binaryOp? (.symbol entry.1) = some entry.2 ∧ entry.2.level = level
  | 0 | 1 | 2 | 3 | 4 | 5 => by decide
  | _ + 6 => by simp [operators]

/-- There are six levels of operators. -/
theorem lt_of_mem_operators {level : Nat} {entry : Symbol × BinaryOp}
    (h : entry ∈ operators level) : level < 6 := by
  match level with
  | 0 | 1 | 2 | 3 | 4 | 5 => decide
  | _ + 6 => cases h

/-- The operator found for a lexeme at a level is the one that the lexeme is the symbol of. -/
theorem operatorAt?_eq_some_iff {level : Nat} {lexeme : Lexeme} {op : BinaryOp} :
    operatorAt? level lexeme = some op ↔
      ∃ symbol, lexeme = .symbol symbol ∧ (symbol, op) ∈ operators level := by
  rw [operatorAt?, Option.filter_eq_some_iff, decide_eq_true_iff]
  constructor
  · rintro ⟨h, rfl⟩
    cases lexeme with
    | number => cases h
    | name => cases h
    | symbol s => exact ⟨s, rfl, by cases s <;> cases h <;> decide⟩
  · rintro ⟨s, rfl, h⟩
    exact of_mem_operators level _ h

/-- The unary operator found for a lexeme is the one that the lexeme is the symbol of. -/
theorem unaryOp?_eq_some_iff {lexeme : Lexeme} {op : UnaryOp} :
    unaryOp? lexeme = some op ↔
      ∃ symbol, lexeme = .symbol symbol ∧ (symbol, op) ∈ unaryOperators := by
  constructor
  · intro h
    cases lexeme with
    | number => cases h
    | name => cases h
    | symbol s => exact ⟨s, rfl, by cases s <;> cases h <;> decide⟩
  · rintro ⟨s, rfl, h⟩
    have agrees : ∀ entry ∈ unaryOperators, unaryOp? (.symbol entry.1) = some entry.2 := by decide
    exact agrees _ h

/-- A lexeme is an operator of at most one level. -/
theorem operatorAt?_eq_none_of_lt {level l : Nat} {lexeme : Lexeme} {op : BinaryOp}
    (h : operatorAt? level lexeme = some op) (hl : level < l) : operatorAt? l lexeme = none := by
  rw [operatorAt?, Option.filter_eq_some_iff, decide_eq_true_iff] at h
  rw [operatorAt?, h.1, Option.filter_some, if_neg]
  rw [decide_eq_true_iff]
  omega

section Levels

variable {level k : Nat} {row : List Mark} {tree : Expr}

/-- An operation of one level is an operation of every lower level. -/
theorem IsOperation.lower {n : Nat} (h : IsOperation (level + n) k row tree)
    (hl : level + n ≤ 6) : IsOperation level k row tree := by
  induction n with
  | zero => exact h
  | succ n ih => exact ih (.tighter (by omega) h) (by omega)

/-- An operation of any level is an expression. -/
theorem IsOperation.expression (h : IsOperation level k row tree) (hl : level ≤ 6) :
    IsExpression k row tree := by
  rw [← Nat.zero_add level] at h hl
  exact .plain (h.lower hl)

/-- An operand is an operation of every level. -/
theorem IsOperand.operation (h : IsOperand k row tree) (hl : level ≤ 6) :
    IsOperation level k row tree := by
  obtain ⟨n, hn⟩ := Nat.exists_eq_add_of_le hl
  refine IsOperation.lower (n := n) ?_ (by omega)
  rw [← hn]
  exact .operand h

/-- An atom is an operation of every level. -/
theorem IsAtom.operation (h : IsAtom k row tree) (hl : level ≤ 6) :
    IsOperation level k row tree := (IsOperand.atom h).operation hl

/-- An atom is an expression. -/
theorem IsAtom.expression (h : IsAtom k row tree) : IsExpression k row tree :=
  .plain (h.operation (Nat.zero_le 6))

end Levels

end Grammar
end Formula
end GuildRating
