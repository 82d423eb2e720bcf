/-
# What is read is derived

Whatever a reader returns, the tokens that it took are a row of the grammar with the tree that it
returned, and the row keeps within the room that there was.  First each reader that succeeds is
taken apart (`readBranches_eq_ok`, `readAtom_eq_ok`, ...); the induction then follows the readers'
own measure.
-/

import GuildRating.Proofs.Grammar.Basic
import GuildRating.Proofs.Grammar.Reading

namespace GuildRating
namespace Formula
namespace Grammar

open Formula.Expr

variable {frame : Frame} {room level pos : Nat} {tokens rest : List Token} {tree : Expr}

/-- A closing parenthesis that is found stands at the front. -/
theorem readClosing_eq_ok {opened : Nat} (h : readClosing frame opened tokens = .ok rest) :
    ∃ p, tokens = ⟨.symbol .closeParen, p⟩ :: rest := by
  unfold readClosing at h
  split at h
  · cases h
    exact ⟨_, rfl⟩
  · cases h
  · cases h

/-- Behind a condition stand both branches or nothing of the expression. -/
theorem readBranches_eq_ok {a : Expr} (h : readBranches frame room a tokens = .ok (tree, rest)) :
    (tree = a ∧ rest = tokens) ∨
      ∃ p q b c tokens₂ tokens₃, tokens = ⟨.symbol .question, p⟩ :: tokens₂ ∧
        readExpression frame room tokens₂ = .ok (b, ⟨.symbol .colon, q⟩ :: tokens₃) ∧
        readExpression frame room tokens₃ = .ok (c, rest) ∧ tree = .conditional a b c := by
  unfold readBranches at h
  split at h
  · obtain ⟨⟨b, rest₂⟩, hb, h⟩ := bind_eq_ok.1 h
    dsimp only at h
    unfold readLastBranch at h
    split at h
    · obtain ⟨⟨c, rest₃⟩, hc, h⟩ := bind_eq_ok.1 h
      cases h
      exact .inr ⟨_, _, b, c, _, _, rfl, hb, hc, rfl⟩
    · cases h
  · cases h
    exact .inl ⟨rfl, rfl⟩

/-- What follows an argument is the parenthesis, or a comma and more arguments. -/
theorem readMore_eq_ok {arg : Expr} {args : List Expr}
    (h : readMore frame pos room arg tokens = .ok (args, rest)) :
    (∃ p, tokens = ⟨.symbol .closeParen, p⟩ :: rest ∧ args = [arg]) ∨
      ∃ p tokens₂ others, tokens = ⟨.symbol .comma, p⟩ :: tokens₂ ∧
        readArgumentsFrom frame pos room tokens₂ = .ok (others, rest) ∧ args = arg :: others := by
  unfold readMore at h
  split at h
  · obtain ⟨⟨others, rest₂⟩, hothers, h⟩ := bind_eq_ok.1 h
    cases h
    exact .inr ⟨_, _, others, rfl, hothers, rfl⟩
  · obtain ⟨rest₂, hclosed, h⟩ := bind_eq_ok.1 h
    cases h
    obtain ⟨p, rfl⟩ := readClosing_eq_ok hclosed
    exact .inl ⟨p, rfl, rfl⟩

/-- The loop has ended, or it has taken an operator of its level and a right side. -/
theorem readChain_eq_ok {left : Expr}
    (h : readChain frame level room left tokens = .ok (tree, rest)) :
    (tree = left ∧ rest = tokens) ∨
      ∃ p symbol op b tokens₂ tokens₃, tokens = ⟨.symbol symbol, p⟩ :: tokens₂ ∧
        (symbol, op) ∈ operators level ∧
        readOperation frame (level + 1) room tokens₂ = .ok (b, tokens₃) ∧
        readChain frame level room (.binary op left b) tokens₃ = .ok (tree, rest) := by
  cases tokens with
  | nil =>
    rw [readChain_nil] at h
    cases h
    exact .inl ⟨rfl, rfl⟩
  | cons token tokens =>
    cases hop : operatorAt? level token.lexeme with
    | none =>
      rw [readChain_of_none hop] at h
      cases h
      exact .inl ⟨rfl, rfl⟩
    | some op =>
      obtain ⟨symbol, hsymbol, hmem⟩ := operatorAt?_eq_some_iff.1 hop
      rw [readChain_of_some hop] at h
      obtain ⟨⟨b, tokens₃⟩, hb, h⟩ := bind_eq_ok.1 h
      exact .inr ⟨token.pos, symbol, op, b, tokens, tokens₃, by rw [← hsymbol], hmem, hb, h⟩

/-- An operand is an atom, or a unary operator that takes one level of the room. -/
theorem readOperand_eq_ok (h : readOperand frame room tokens = .ok (tree, rest)) :
    readAtom frame room tokens = .ok (tree, rest) ∨
      ∃ p symbol op room' inner tokens₂, room = room' + 1 ∧
        tokens = ⟨.symbol symbol, p⟩ :: tokens₂ ∧ (symbol, op) ∈ unaryOperators ∧
        readOperand frame room' tokens₂ = .ok (inner, rest) ∧ tree = .unary op inner := by
  cases tokens with
  | nil =>
    rw [readOperand_nil] at h
    cases h
  | cons token tokens =>
    cases hop : unaryOp? token.lexeme with
    | none =>
      rw [readOperand_of_none hop] at h
      exact .inl h
    | some op =>
      obtain ⟨symbol, hsymbol, hmem⟩ := unaryOp?_eq_some_iff.1 hop
      cases room with
      | zero =>
        rw [readOperand_zero hop] at h
        cases h
      | succ room =>
        rw [readOperand_succ hop] at h
        obtain ⟨⟨inner, rest₂⟩, hinner, h⟩ := bind_eq_ok.1 h
        cases h
        exact .inr ⟨token.pos, symbol, op, room, inner, tokens, rfl, by rw [← hsymbol], hmem,
          hinner, rfl⟩

/-- The four kinds of atoms. -/
theorem readAtom_eq_ok (h : readAtom frame room tokens = .ok (tree, rest)) :
    (∃ p value, tokens = ⟨.number value, p⟩ :: rest ∧ tree = .number value) ∨
      (∃ p name, tokens = ⟨.name name, p⟩ :: rest ∧ tree = .var name) ∨
      (∃ p q name args tokens₂,
        tokens = ⟨.name name, p⟩ :: ⟨.symbol .openParen, q⟩ :: tokens₂ ∧
        readArguments frame p room tokens₂ = .ok (args, rest) ∧ tree = .call name args) ∨
      ∃ p q tokens₂, tokens = ⟨.symbol .openParen, p⟩ :: tokens₂ ∧
        readExpression frame room tokens₂ = .ok (tree, ⟨.symbol .closeParen, q⟩ :: rest) := by
  match tokens with
  | [] =>
    rw [readAtom_nil] at h
    cases h
  | ⟨.number value, p⟩ :: tokens =>
    rw [readAtom_number] at h
    cases h
    exact .inl ⟨p, value, rfl, rfl⟩
  | ⟨.name name, p⟩ :: tokens =>
    by_cases hcall : ∃ q tokens₂, tokens = ⟨.symbol .openParen, q⟩ :: tokens₂
    · obtain ⟨q, tokens₂, rfl⟩ := hcall
      rw [readAtom_call] at h
      obtain ⟨⟨args, rest₂⟩, hargs, h⟩ := bind_eq_ok.1 h
      cases h
      exact .inr (.inr (.inl ⟨p, q, name, args, tokens₂, rfl, hargs, rfl⟩))
    · rw [readAtom_var fun q tokens₂ he => hcall ⟨q, tokens₂, he⟩] at h
      cases h
      exact .inr (.inl ⟨p, name, rfl, rfl⟩)
  | ⟨.symbol s, p⟩ :: tokens =>
    by_cases hs : s = .openParen
    · subst hs
      rw [readAtom_group] at h
      obtain ⟨⟨inner, rest₂⟩, hinner, h⟩ := bind_eq_ok.1 h
      obtain ⟨rest₃, hclosed, h⟩ := bind_eq_ok.1 h
      cases h
      obtain ⟨q, rfl⟩ := readClosing_eq_ok hclosed
      exact .inr (.inr (.inr ⟨p, q, tokens, rfl, hinner⟩))
    · rw [readAtom_symbol hs] at h
      cases h

/-- Arguments that are read are none at all, or one and perhaps more. -/
theorem readArguments_eq_ok {args : List Expr}
    (h : readArguments frame pos room tokens = .ok (args, rest)) :
    (∃ p, tokens = ⟨.symbol .closeParen, p⟩ :: rest ∧ args = []) ∨
      readArgumentsFrom frame pos room tokens = .ok (args, rest) := by
  by_cases hclose : ∃ p tokens₂, tokens = ⟨.symbol .closeParen, p⟩ :: tokens₂
  · obtain ⟨p, tokens₂, rfl⟩ := hclose
    rw [readArguments_close] at h
    cases h
    exact .inl ⟨p, rfl, rfl⟩
  · rw [readArguments_of_ne fun p tokens₂ he => hclose ⟨p, tokens₂, he⟩] at h
    exact .inr h

mutual

/-- **What is read as an expression is derived**, whatever number `k` of phrases is around it, and
the room that there was bounds the row. -/
theorem readExpression_sound {room : Nat} {tokens rest : List Token} {tree : Expr}
    (h : readExpression frame room tokens = .ok (tree, rest)) (k : Nat) :
    ∃ row, tokens = row.map Mark.toToken ++ rest ∧ IsExpression k row tree ∧
      Within (k + room) row := by
  cases room with
  | zero =>
    rw [readExpression_zero] at h
    cases h
  | succ room =>
    rw [readExpression_succ] at h
    obtain ⟨⟨a, rest₁⟩, ha, h⟩ := bind_eq_ok.1 h
    have short₁ := Front.shorter_of_pair ha
    obtain ⟨row₁, htokens, hrow₁, hw₁⟩ := readOperation_sound (Nat.zero_le _) ha k
    rcases readBranches_eq_ok h with ⟨rfl, rfl⟩ | ⟨p, q, b, c, tokens₂, tokens₃, rfl, hb, hc, rfl⟩
    · exact ⟨row₁, htokens, .plain hrow₁, hw₁⟩
    · rw [List.length_cons] at short₁
      have short₂ := Front.shorter_of_pair hb
      rw [List.length_cons] at short₂
      obtain ⟨row₂, rfl, hrow₂, hw₂⟩ := readExpression_sound hb (k + 1)
      obtain ⟨row₃, rfl, hrow₃, hw₃⟩ := readExpression_sound hc (k + 1)
      refine ⟨_, ?_, .conditional (p := p) (q := q) hrow₁ hrow₂ hrow₃, ?_⟩
      · rw [htokens]
        simp
      · rw [show k + 1 + room = k + (room + 1) by omega] at hw₂ hw₃
        simp only [within_append, within_cons]
        exact ⟨hw₁, by omega, hw₂, by omega, hw₃⟩
termination_by 10 * tokens.length + 9

/-- **What is read as an operation is a row of the grammar within the room.** -/
theorem readOperation_sound {level room : Nat} {tokens rest : List Token} {tree : Expr}
    (hl : level ≤ 6) (h : readOperation frame level room tokens = .ok (tree, rest)) (k : Nat) :
    ∃ row, tokens = row.map Mark.toToken ++ rest ∧ IsOperation level k row tree ∧
      Within (k + room + 1) row := by
  rcases Nat.eq_or_lt_of_le hl with rfl | hlt
  · rw [readOperation_of_le (Nat.le_refl 6)] at h
    obtain ⟨row, htokens, hrow, hw⟩ := readOperand_sound h k
    exact ⟨row, htokens, .operand hrow, hw⟩
  · rw [readOperation_of_lt hlt] at h
    obtain ⟨⟨left, rest₁⟩, hleft, hchain⟩ := bind_eq_ok.1 h
    have short₁ := Front.shorter_of_pair hleft
    obtain ⟨row₁, htokens, hrow₁, hw₁⟩ := readOperation_sound hlt hleft k
    obtain ⟨row₂, rfl, hrow, hw₂⟩ := readChain_sound hchain (.tighter hlt hrow₁)
    exact ⟨row₁ ++ row₂, by simp [htokens], hrow, within_append.2 ⟨hw₁, hw₂⟩⟩
termination_by 10 * tokens.length + 2 + (6 - level)

/-- The loop of a level extends a row that is an operation of the level already. -/
theorem readChain_sound {level room k : Nat} {tokens rest : List Token} {left tree : Expr}
    {row₀ : List Mark} (h : readChain frame level room left tokens = .ok (tree, rest))
    (hleft : IsOperation level k row₀ left) :
    ∃ row, tokens = row.map Mark.toToken ++ rest ∧ IsOperation level k (row₀ ++ row) tree ∧
      Within (k + room + 1) row := by
  rcases readChain_eq_ok h with
    ⟨rfl, rfl⟩ | ⟨p, symbol, op, b, tokens₂, tokens₃, rfl, hop, hb, hchain⟩
  · exact ⟨[], rfl, by rwa [List.append_nil], within_nil⟩
  · have short₁ := Front.shorter_of_pair hb
    obtain ⟨row₁, htokens, hrow₁, hw₁⟩ := readOperation_sound (lt_of_mem_operators hop) hb k
    obtain ⟨row₂, rfl, hrow, hw₂⟩ := readChain_sound hchain (.joined (p := p) hop hleft hrow₁)
    refine ⟨⟨⟨.symbol symbol, p⟩, k⟩ :: (row₁ ++ row₂), by simp [htokens], by simpa using hrow, ?_⟩
    simp only [within_append, within_cons]
    exact ⟨by omega, hw₁, hw₂⟩
termination_by 10 * tokens.length + 9

/-- So is what is read as an operand. -/
theorem readOperand_sound {room : Nat} {tokens rest : List Token} {tree : Expr}
    (h : readOperand frame room tokens = .ok (tree, rest)) (k : Nat) :
    ∃ row, tokens = row.map Mark.toToken ++ rest ∧ IsOperand k row tree ∧
      Within (k + room + 1) row := by
  rcases readOperand_eq_ok h with
    h | ⟨p, symbol, op, room, inner, tokens₂, rfl, rfl, hop, hinner, rfl⟩
  · obtain ⟨row, htokens, hrow, hw⟩ := readAtom_sound h k
    exact ⟨row, htokens, .atom hrow, hw⟩
  · obtain ⟨row, rfl, hrow, hw⟩ := readOperand_sound hinner (k + 1)
    rw [show k + 1 + room + 1 = k + (room + 1) + 1 by omega] at hw
    exact ⟨⟨⟨.symbol symbol, p⟩, k⟩ :: row, rfl, .unary hop hrow,
      within_cons.2 ⟨by omega, hw⟩⟩
termination_by 10 * tokens.length + 1

/-- So is what is read as an atom. -/
theorem readAtom_sound {room : Nat} {tokens rest : List Token} {tree : Expr}
    (h : readAtom frame room tokens = .ok (tree, rest)) (k : Nat) :
    ∃ row, tokens = row.map Mark.toToken ++ rest ∧ IsAtom k row tree ∧
      Within (k + room + 1) row := by
  rcases readAtom_eq_ok h with
    ⟨p, value, rfl, rfl⟩ | ⟨p, name, rfl, rfl⟩ | ⟨p, q, name, args, tokens₂, rfl, hargs, rfl⟩ |
      ⟨p, q, tokens₂, rfl, hinner⟩
  · exact ⟨[⟨⟨.number value, p⟩, k⟩], rfl, .number, within_cons.2 ⟨by omega, within_nil⟩⟩
  · exact ⟨[⟨⟨.name name, p⟩, k⟩], rfl, .var, within_cons.2 ⟨by omega, within_nil⟩⟩
  · rcases readArguments_eq_ok hargs with ⟨r, rfl, rfl⟩ | hargs
    · refine ⟨[⟨⟨.name name, p⟩, k⟩, ⟨⟨.symbol .openParen, q⟩, k⟩, ⟨⟨.symbol .closeParen, r⟩, k⟩],
        rfl, .bareCall, ?_⟩
      simp only [within_cons]
      exact ⟨by omega, by omega, by omega, within_nil⟩
    · obtain ⟨row, r, rfl, hrow, hw⟩ := readArgumentsFrom_sound hargs k
      refine ⟨_, ?_, .call (p := p) (q := q) (r := r) hrow, ?_⟩
      · simp
      · simp only [within_append, within_cons]
        exact ⟨by omega, by omega, hw, by omega, within_nil⟩
  · obtain ⟨row, rfl, hrow, hw⟩ := readExpression_sound hinner (k + 1)
    rw [show k + 1 + room = k + room + 1 by omega] at hw
    refine ⟨_, ?_, .group (p := p) (q := q) hrow, ?_⟩
    · simp
    · simp only [within_append, within_cons]
      exact ⟨by omega, hw, by omega, within_nil⟩
termination_by 10 * tokens.length

/-- So are arguments that are read, with the parenthesis behind them. -/
theorem readArgumentsFrom_sound {room pos : Nat} {tokens rest : List Token} {args : List Expr}
    (h : readArgumentsFrom frame pos room tokens = .ok (args, rest)) (k : Nat) :
    ∃ row p, tokens = row.map Mark.toToken ++ ⟨.symbol .closeParen, p⟩ :: rest ∧
      IsArguments k row args ∧ Within (k + room + 1) row := by
  rw [readArgumentsFrom_eq] at h
  obtain ⟨⟨arg, rest₁⟩, harg, h⟩ := bind_eq_ok.1 h
  have short₁ := Front.shorter_of_pair harg
  obtain ⟨row₁, htokens, hrow₁, hw₁⟩ := readExpression_sound harg (k + 1)
  rw [show k + 1 + room = k + room + 1 by omega] at hw₁
  rcases readMore_eq_ok h with ⟨p, rfl, rfl⟩ | ⟨p, tokens₂, others, rfl, hothers, rfl⟩
  · exact ⟨row₁, p, htokens, .one hrow₁, hw₁⟩
  · rw [List.length_cons] at short₁
    obtain ⟨row₂, q, rfl, hrow₂, hw₂⟩ := readArgumentsFrom_sound hothers k
    refine ⟨_, q, ?_, .more (p := p) hrow₁ hrow₂, ?_⟩
    · rw [htokens]
      simp
    · simp only [within_append, within_cons]
      exact ⟨hw₁, by omega, hw₂⟩
termination_by 10 * tokens.length + 10

end

end Grammar
end Formula
end GuildRating
