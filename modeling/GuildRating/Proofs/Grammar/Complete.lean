/-
# What is derived is read

A row that the grammar derives is read to its tree, provided that there is room for its nesting
and that the tokens behind it cannot continue it (`EndsOperation`, `EndsExpression`).  Without the
room the answer is `tooDeep` and nothing else.  Both together are one equation for each sort of
phrase: reading it measures its row (`measured`) and then returns its tree and what stands behind.

An operation is read before the loop of its level has seen the next token.  So the equation for
operations ends in that loop (`readChain`), and the induction runs over the left side of the
operators, where the grammar recurs and the parser loops.
-/

import GuildRating.Proofs.Grammar.Basic
import GuildRating.Proofs.Grammar.Reading

namespace GuildRating
namespace Formula
namespace Grammar

open Formula.Expr

variable {frame : Frame} {level room bound : Nat} {rest : List Token}

/-- No parenthesis opens here, so a name before it is no call. -/
def NoCall (rest : List Token) : Prop := ∀ pos later, rest ≠ ⟨.symbol .openParen, pos⟩ :: later

/-- An operation of this level can end here: no call begins, and no operator of this level or a
closer one follows. -/
def EndsOperation (level : Nat) (rest : List Token) : Prop :=
  NoCall rest ∧ ∀ token later l, rest = token :: later → level ≤ l →
    operatorAt? l token.lexeme = none

/-- An expression can end here. -/
def EndsExpression (rest : List Token) : Prop :=
  EndsOperation 0 rest ∧ ∀ pos later, rest ≠ ⟨.symbol .question, pos⟩ :: later

/-- Where an operation of a level can end, one of a closer level can. -/
theorem EndsOperation.mono {l : Nat} (h : EndsOperation level rest) (hl : level ≤ l) :
    EndsOperation l rest :=
  ⟨h.1, fun token later _ hrest hk => h.2 token later _ hrest (Nat.le_trans hl hk)⟩

/-- An operation can end at a symbol that is no operator of its level or a closer one. -/
theorem endsOperation_symbol {s : Symbol} {pos : Nat} {later : List Token} (hs : s ≠ .openParen)
    (h : ∀ l, level ≤ l → operatorAt? l (.symbol s) = none) :
    EndsOperation level (⟨.symbol s, pos⟩ :: later) :=
  ⟨fun _ _ he => hs (by cases he; rfl), fun _ _ l he hl => by cases he; exact h l hl⟩

/-- Operators end at the sixth level. -/
theorem endsOperation_levels (h : NoCall rest) : EndsOperation 6 rest := by
  refine ⟨h, fun token later l _ hl => Option.eq_none_iff_forall_ne_some.2 fun op hop => ?_⟩
  obtain ⟨_, _, hmem⟩ := operatorAt?_eq_some_iff.1 hop
  have := lt_of_mem_operators hmem
  omega

/-- A closing parenthesis, a comma and a colon end an expression. -/
theorem endsExpression_symbol {s : Symbol} {pos : Nat} {later : List Token}
    (hs : s = .closeParen ∨ s = .comma ∨ s = .colon) :
    EndsExpression (⟨.symbol s, pos⟩ :: later) := by
  refine ⟨endsOperation_symbol ?_ fun l _ => ?_, fun _ _ he => ?_⟩
  · rintro rfl
    simp at hs
  · rcases hs with rfl | rfl | rfl <;> rfl
  · cases he
    simp at hs

/-- An expression can end with the row. -/
theorem endsExpression_nil : EndsExpression [] :=
  ⟨⟨fun _ _ => nofun, fun _ _ _ => nofun⟩, fun _ _ => nofun⟩

/-- The loop stops where the operation ends. -/
theorem readChain_of_ends {left : Expr} (h : EndsOperation level rest) :
    readChain frame level room left rest = .ok (left, rest) := by
  cases rest with
  | nil => exact readChain_nil
  | cons token later => exact readChain_of_none (h.2 token later level rfl (Nat.le_refl _))

/-- Succeeds on a row that keeps within the bound; any other row is too deep. -/
def measured (frame : Frame) (bound : Nat) (row : List Mark) : Except GrammarError Unit :=
  if Within bound row then .ok () else .error (.tooDeep frame.limit)

theorem measured_nil : measured frame bound [] = .ok () := by simp [measured, Within]

/-- A token within the bound does not count when a row is measured. -/
theorem measured_cons {token : Token} {k : Nat} {row : List Mark} (h : k < bound) :
    measured frame bound (⟨token, k⟩ :: row) = measured frame bound row := by
  simp [measured, within_cons, h]

/-- Two rows side by side are measured one after the other. -/
theorem measured_append {row row' : List Mark} :
    measured frame bound (row ++ row') =
      measured frame bound row >>= fun _ => measured frame bound row' := by
  by_cases h : Within bound row <;> simp [measured, within_append, h]

/-- A row whose first token reaches the bound is too deep. -/
theorem measured_eq_tooDeep {α : Type} {k : Nat} {row : List Mark} {a : α} (hk : bound ≤ k)
    (h : ∃ m rest, row = m :: rest ∧ m.enclosing = k ∧ startsOperand m.lexeme = true) :
    (measured frame bound row >>= fun _ => .ok a) = .error (.tooDeep frame.limit) := by
  obtain ⟨m, row', rfl, hm, -⟩ := h
  have : ¬ Within bound (m :: row') := fun hw => by
    have := hw m List.mem_cons_self
    omega
  rw [measured, if_neg this, error_bind]

mutual

/-- **A derived expression is read**, given as much room as its row needs.  The whole expression
takes one level of the room before anything is looked at. -/
theorem IsExpression.read {k : Nat} {row : List Mark} {tree : Expr} :
    IsExpression k row tree → ∀ {frame : Frame} {room rest}, EndsExpression rest →
      readExpression frame room (row.map Mark.toToken ++ rest) =
        measured frame (k + room) row >>= fun _ => .ok (tree, rest)
  | h, _, 0, rest, _ => by
    rw [readExpression_zero, measured_eq_tooDeep (by omega) h.head]
  | .plain h, _, room + 1, rest, hrest => by
    rw [readExpression_succ, h.read (hrest.1.mono (by omega)), bind_assoc]
    simp only [readChain_of_ends hrest.1, ok_bind]
    rw [readBranches]
    · rfl
    · exact hrest.2
  | @IsExpression.conditional _ row₁ row₂ row₃ a b c p q h₁ h₂ h₃, frame, room + 1, rest,
      hrest => by
    have ends : ∀ later, EndsOperation 0 (⟨.symbol .question, p⟩ :: later) := fun _ =>
      endsOperation_symbol nofun fun _ _ => rfl
    simp only [List.map_append, List.map_cons, List.append_assoc, List.cons_append]
    rw [readExpression_succ, h₁.read ((ends _).mono (by omega)), bind_assoc]
    simp only [readChain_of_ends (ends _), ok_bind, readBranches]
    rw [h₂.read (endsExpression_symbol (by simp)), bind_assoc]
    simp only [ok_bind, readLastBranch]
    rw [h₃.read hrest, bind_assoc, measured_append, measured_cons (by omega), measured_append,
      measured_cons (by omega), bind_assoc, bind_assoc]
    simp only [ok_bind, show k + 1 + room = k + (room + 1) by omega]
    rfl
termination_by structural h => h

/-- A derived operation is read up to where the loop of its level goes on. -/
theorem IsOperation.read {level k : Nat} {row : List Mark} {tree : Expr} :
    IsOperation level k row tree → ∀ {frame : Frame} {room rest}, EndsOperation (level + 1) rest →
      readOperation frame level room (row.map Mark.toToken ++ rest) =
        measured frame (k + room + 1) row >>= fun _ => readChain frame level room tree rest
  | .operand h, frame, room, rest, hrest => by
    simp only [readChain_of_ends (endsOperation_levels hrest.1)]
    exact (readOperation_of_le (Nat.le_refl 6)).trans (h.read hrest.1)
  | .tighter hl h, frame, room, rest, hrest => by
    rw [readOperation_of_lt hl, h.read (hrest.mono (by omega)), bind_assoc]
    simp only [readChain_of_ends hrest, ok_bind]
  | @IsOperation.joined level _ row₁ row₂ symbol op a b p hop h₁ h₂, frame, room, rest, hrest => by
    have hop' : operatorAt? level (.symbol symbol) = some op :=
      operatorAt?_eq_some_iff.2 ⟨symbol, rfl, hop⟩
    have ends : ∀ later, EndsOperation (level + 1) (⟨.symbol symbol, p⟩ :: later) := fun _ =>
      endsOperation_symbol (by rintro rfl; cases hop') fun _ hl => operatorAt?_eq_none_of_lt hop' hl
    simp only [List.map_append, List.map_cons, List.append_assoc, List.cons_append]
    rw [h₁.read (ends _), readChain_of_some hop', h₂.read (hrest.mono (by omega)), measured_append,
      measured_cons (by omega), bind_assoc, bind_assoc]
    simp only [readChain_of_ends hrest, ok_bind]
termination_by structural h => h

/-- A derived operand is read; every unary operator takes one level of the room. -/
theorem IsOperand.read {k : Nat} {row : List Mark} {tree : Expr} :
    IsOperand k row tree → ∀ {frame : Frame} {room rest}, NoCall rest →
      readOperand frame room (row.map Mark.toToken ++ rest) =
        measured frame (k + room + 1) row >>= fun _ => .ok (tree, rest)
  | .atom h, frame, room, rest, hrest => by
    obtain ⟨m, row', hrow, -, -, hm⟩ := h.head
    rw [← h.read hrest, hrow, List.map_cons, List.cons_append, readOperand_of_none hm]
  | .unary hop h, frame, 0, rest, _ => by
    rw [List.map_cons, List.cons_append, readOperand_zero (unaryOp?_eq_some_iff.2 ⟨_, rfl, hop⟩),
      measured_cons (by omega), measured_eq_tooDeep (by omega) h.head]
  | .unary hop h, frame, room + 1, rest, hrest => by
    rw [List.map_cons, List.cons_append, readOperand_succ (unaryOp?_eq_some_iff.2 ⟨_, rfl, hop⟩),
      h.read hrest, measured_cons (by omega), bind_assoc]
    simp only [ok_bind, show k + 1 + room + 1 = k + (room + 1) + 1 by omega]
    rfl
termination_by structural h => h

/-- A derived atom is read. -/
theorem IsAtom.read {k : Nat} {row : List Mark} {tree : Expr} :
    IsAtom k row tree → ∀ {frame : Frame} {room rest}, NoCall rest →
      readAtom frame room (row.map Mark.toToken ++ rest) =
        measured frame (k + room + 1) row >>= fun _ => .ok (tree, rest)
  | .number, frame, room, rest, _ => by
    rw [List.map_cons, List.map_nil, List.cons_append, List.nil_append, readAtom_number,
      measured_cons (by omega), measured_nil, ok_bind]
  | .var, frame, room, rest, hrest => by
    rw [List.map_cons, List.map_nil, List.cons_append, List.nil_append, readAtom_var hrest,
      measured_cons (by omega), measured_nil, ok_bind]
  | .group h, frame, room, rest, _ => by
    simp only [List.map_append, List.map_cons, List.map_nil, List.append_assoc, List.cons_append,
      List.nil_append]
    rw [readAtom_group, h.read (endsExpression_symbol (by simp)), measured_cons (by omega),
      measured_append, measured_cons (by omega), measured_nil, bind_assoc, bind_assoc]
    simp only [ok_bind, readClosing, show k + 1 + room = k + room + 1 by omega]
    rfl
  | .bareCall, frame, room, rest, _ => by
    simp only [List.map_cons, List.map_nil, List.cons_append, List.nil_append]
    rw [readAtom_call, readArguments_close, measured_cons (by omega), measured_cons (by omega),
      measured_cons (by omega), measured_nil]
    rfl
  | @IsAtom.call _ _ row args _ _ r h, frame, room, rest, _ => by
    -- the first argument is no closing parenthesis, so the call is not taken for a bare one
    have noClose : ∀ pos later, row.map Mark.toToken ++ ⟨.symbol .closeParen, r⟩ :: rest ≠
        ⟨.symbol .closeParen, pos⟩ :: later := by
      obtain ⟨m, row', rfl, -, hm⟩ := h.head
      intro pos later he
      rw [List.map_cons, List.cons_append] at he
      rw [(List.cons.inj he).1] at hm
      cases hm
    simp only [List.map_append, List.map_cons, List.map_nil, List.append_assoc, List.cons_append,
      List.nil_append]
    rw [readAtom_call, readArguments_of_ne noClose, h.read, measured_cons (by omega),
      measured_cons (by omega), measured_append, measured_cons (by omega), measured_nil,
      bind_assoc, bind_assoc]
    rfl
termination_by structural h => h

/-- Derived arguments are read with the parenthesis behind them. -/
theorem IsArguments.read {k : Nat} {row : List Mark} {args : List Expr} :
    IsArguments k row args → ∀ {frame : Frame} {pos room rest p},
      readArgumentsFrom frame pos room (row.map Mark.toToken ++ ⟨.symbol .closeParen, p⟩ :: rest) =
        measured frame (k + room + 1) row >>= fun _ => .ok (args, rest)
  | .one h, frame, pos, room, rest, p => by
    rw [readArgumentsFrom_eq, h.read (endsExpression_symbol (by simp)), bind_assoc]
    simp only [ok_bind, readMore, readClosing, show k + 1 + room = k + room + 1 by omega]
    rfl
  | .more h hs, frame, pos, room, rest, p => by
    simp only [List.map_append, List.map_cons, List.append_assoc, List.cons_append]
    rw [readArgumentsFrom_eq, h.read (endsExpression_symbol (by simp)), bind_assoc]
    simp only [ok_bind, readMore]
    rw [hs.read, bind_assoc, measured_append, measured_cons (by omega), bind_assoc]
    simp only [ok_bind, show k + 1 + room = k + room + 1 by omega]
    rfl
termination_by structural h => h

end

end Grammar
end Formula
end GuildRating
