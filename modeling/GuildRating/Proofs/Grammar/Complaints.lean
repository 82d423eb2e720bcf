/-
# What the parser complains about

Every reader that stops names the token or the parenthesis it stopped at, or the limit that left no
room (`Complaint`).  That there is nothing to read is noticed before any reader starts, so it is the
one thing a row with tokens in it is never refused for (`parse_complains`).
-/

import GuildRating.Proofs.Grammar.Reading

namespace GuildRating
namespace Formula
namespace Expr

/-- An error of a reader: it names a place, or the limit. -/
inductive Complaint (limit : Nat) : GrammarError → Prop where
  | unexpected {pos : Nat} {expected : Expected} {found : Option Lexeme} :
      Complaint limit (.unexpected pos expected found)
  | unbalanced {pos : Nat} : Complaint limit (.unbalanced pos)
  | tooDeep : Complaint limit (.tooDeep limit)

variable {frame : Frame} {limit room level pos : Nat} {tokens : List Token}

/-- No reader complains that there is nothing to read. -/
theorem Complaint.ne_empty {e : GrammarError} (h : Complaint limit e) : e ≠ .empty := by
  cases h <;> nofun

/-- A token that was not expected is named with its place. -/
theorem complaint_unexpected (frame : Frame) (expected : Expected) (tokens : List Token) :
    Complaint frame.limit (frame.unexpected expected tokens) := by
  cases tokens with
  | nil => exact .unexpected
  | cons token tokens => exact .unexpected

/-- A missing parenthesis is complained about. -/
theorem readClosing_complains (frame : Frame) (opened : Nat) (tokens : List Token) :
    StopsWith (Complaint frame.limit) (readClosing frame opened tokens) := by
  unfold readClosing
  split
  · exact .ok _
  · exact .error .unbalanced
  · exact .error (complaint_unexpected frame .closeParen _)

/-- What stands behind the expression is complained about. -/
theorem readEnd_complains (frame : Frame) (tree : Expr) (tokens : List Token) :
    StopsWith (Complaint frame.limit) (readEnd frame tree tokens) := by
  unfold readEnd
  split
  · exact .ok _
  · exact .error .unbalanced
  · exact .error (complaint_unexpected frame .operatorOrEnd _)

/-- The reader of a second branch complains if that of expressions does. -/
theorem readLastBranch_complains {a b : Expr}
    (ih : ∀ later, later.length < tokens.length →
      StopsWith (Complaint frame.limit) (readExpression frame room later)) :
    StopsWith (Complaint frame.limit) (readLastBranch frame room a b tokens) := by
  unfold readLastBranch
  split
  · exact (ih _ (Nat.lt_succ_self _)).bind fun _ _ => .ok _
  · exact .error (complaint_unexpected frame .colon _)

/-- So does the reader of both branches. -/
theorem readBranches_complains {a : Expr}
    (ih : ∀ later, later.length < tokens.length →
      StopsWith (Complaint frame.limit) (readExpression frame room later)) :
    StopsWith (Complaint frame.limit) (readBranches frame room a tokens) := by
  unfold readBranches
  split
  · refine (ih _ (Nat.lt_succ_self _)).bind fun r hr =>
        readLastBranch_complains fun later hlater => ?_
    have short := Front.shorter_of_pair hr
    exact ih later (by rw [List.length_cons]; omega)
  · exact .ok _

/-- What follows an argument is complained about if the arguments after it are. -/
theorem readMore_complains {arg : Expr}
    (ih : ∀ later, later.length < tokens.length →
      StopsWith (Complaint frame.limit) (readArgumentsFrom frame pos room later)) :
    StopsWith (Complaint frame.limit) (readMore frame pos room arg tokens) := by
  unfold readMore
  split
  · exact (ih _ (Nat.lt_succ_self _)).bind fun _ _ => .ok _
  · exact (readClosing_complains frame pos _).bind fun _ _ => .ok _

mutual

/-- **A reader that stops names a place or the limit.** -/
theorem readExpression_complains (frame : Frame) (room : Nat) (tokens : List Token) :
    StopsWith (Complaint frame.limit) (readExpression frame room tokens) := by
  cases room with
  | zero =>
    rw [readExpression_zero]
    exact .error .tooDeep
  | succ room =>
    rw [readExpression_succ]
    refine (readOperation_complains frame 0 room tokens).bind fun r hr => ?_
    have short := Front.shorter_of_pair hr
    exact readBranches_complains fun later hlater => readExpression_complains frame room later
termination_by 10 * tokens.length + 9

/-- The reader of operations stops with complaints. -/
theorem readOperation_complains (frame : Frame) (level room : Nat) (tokens : List Token) :
    StopsWith (Complaint frame.limit) (readOperation frame level room tokens) := by
  rcases Nat.lt_or_ge level BinaryOp.levels with hl | hl
  · have : level < 6 := hl
    rw [readOperation_of_lt hl]
    refine (readOperation_complains frame (level + 1) room tokens).bind fun r hr => ?_
    have short := Front.shorter_of_pair hr
    exact readChain_complains frame level room r.1 r.2
  · rw [readOperation_of_le hl]
    exact readOperand_complains frame room tokens
termination_by 10 * tokens.length + 2 + (6 - level)

/-- So does the loop over the operators of a level. -/
theorem readChain_complains (frame : Frame) (level room : Nat) (left : Expr)
    (tokens : List Token) :
    StopsWith (Complaint frame.limit) (readChain frame level room left tokens) := by
  cases tokens with
  | nil =>
    rw [readChain_nil]
    exact .ok _
  | cons token tokens =>
    cases hop : operatorAt? level token.lexeme with
    | none =>
      rw [readChain_of_none hop]
      exact .ok _
    | some op =>
      rw [readChain_of_some hop]
      refine (readOperation_complains frame (level + 1) room tokens).bind fun r hr => ?_
      have short := Front.shorter_of_pair hr
      exact readChain_complains frame level room _ r.2
termination_by 10 * tokens.length + 9

/-- So does the reader of operands. -/
theorem readOperand_complains (frame : Frame) (room : Nat) (tokens : List Token) :
    StopsWith (Complaint frame.limit) (readOperand frame room tokens) := by
  cases tokens with
  | nil =>
    rw [readOperand_nil]
    exact .error .unexpected
  | cons token tokens =>
    cases hop : unaryOp? token.lexeme with
    | none =>
      rw [readOperand_of_none hop]
      exact readAtom_complains frame room (token :: tokens)
    | some op =>
      cases room with
      | zero =>
        rw [readOperand_zero hop]
        exact .error .tooDeep
      | succ room =>
        rw [readOperand_succ hop]
        exact (readOperand_complains frame room tokens).bind fun _ _ => .ok _
termination_by 10 * tokens.length + 1

/-- So does the reader of atoms. -/
theorem readAtom_complains (frame : Frame) (room : Nat) (tokens : List Token) :
    StopsWith (Complaint frame.limit) (readAtom frame room tokens) := by
  match tokens with
  | [] =>
    rw [readAtom_nil]
    exact .error .unexpected
  | ⟨.number value, p⟩ :: tokens =>
    rw [readAtom_number]
    exact .ok _
  | ⟨.name name, p⟩ :: tokens =>
    rcases starts_or_ne .openParen tokens with ⟨q, later, rfl⟩ | noCall
    · rw [readAtom_call]
      exact (readArguments_complains frame p room later).bind fun _ _ => .ok _
    · rw [readAtom_var noCall]
      exact .ok _
  | ⟨.symbol s, p⟩ :: tokens =>
    by_cases hs : s = .openParen
    · subst hs
      rw [readAtom_group]
      refine (readExpression_complains frame room tokens).bind fun r _ => ?_
      exact (readClosing_complains frame p r.2).bind fun _ _ => .ok _
    · rw [readAtom_symbol hs]
      exact .error .unexpected
termination_by 10 * tokens.length

/-- So does the reader of arguments. -/
theorem readArguments_complains (frame : Frame) (pos room : Nat) (tokens : List Token) :
    StopsWith (Complaint frame.limit) (readArguments frame pos room tokens) := by
  rcases starts_or_ne .closeParen tokens with ⟨p, later, rfl⟩ | noClose
  · rw [readArguments_close]
    exact .ok _
  · rw [readArguments_of_ne noClose]
    exact readArgumentsFrom_complains frame pos room tokens
termination_by 10 * tokens.length + 11

/-- So does the loop over the arguments. -/
theorem readArgumentsFrom_complains (frame : Frame) (pos room : Nat) (tokens : List Token) :
    StopsWith (Complaint frame.limit) (readArgumentsFrom frame pos room tokens) := by
  rw [readArgumentsFrom_eq]
  refine (readExpression_complains frame room tokens).bind fun r hr => ?_
  have short := Front.shorter_of_pair hr
  exact readMore_complains fun later hlater => readArgumentsFrom_complains frame pos room later
termination_by 10 * tokens.length + 10

end

/-- **A row with tokens in it is refused at a place or for its nesting.** -/
theorem parse_complains (limit : Nat) (h : tokens ≠ []) :
    StopsWith (Complaint limit) (parse limit tokens) := by
  obtain ⟨token, tokens, rfl⟩ := List.exists_cons_of_ne_nil h
  rw [parse_cons]
  have hread := readExpression_complains ⟨endOf (token :: tokens), limit⟩ limit (token :: tokens)
  refine hread.bind fun r _ => ?_
  exact readEnd_complains ⟨endOf (token :: tokens), limit⟩ r.1 r.2

end Expr
end Formula
end GuildRating
