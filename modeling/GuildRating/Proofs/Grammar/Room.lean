/-
# More room

How much room there is for nesting shows in the outcome of a reading in one way only: too little
of it ends in `tooDeep`.  Given at least as much room, the same tokens give the same tree or the
same error, unless the reading with less room was too deep (`parse_roomier`).  Nothing has to be
said of a reading that ends early with another error, since every reader passes the error on
before the room is looked at again.
-/

import GuildRating.Proofs.Grammar.Reading

namespace GuildRating
namespace Formula
namespace Expr

variable {endPos limit limit' room room' level pos : Nat} {tokens : List Token}

/-- The reading was too deep for the limit. -/
def TooDeepAt (limit : Nat) (e : GrammarError) : Prop := e = .tooDeep limit

/-- An unexpected token is reported without the limit. -/
theorem unexpected_limit (limit limit' : Nat) (expected : Expected) (tokens : List Token) :
    Frame.unexpected ⟨endPos, limit⟩ expected tokens =
      Frame.unexpected ⟨endPos, limit'⟩ expected tokens := by
  cases tokens <;> rfl

/-- The limit does not matter for a closing parenthesis. -/
theorem readClosing_limit (limit limit' opened : Nat) (tokens : List Token) :
    readClosing ⟨endPos, limit⟩ opened tokens = readClosing ⟨endPos, limit'⟩ opened tokens := by
  unfold readClosing
  split
  · rfl
  · rfl
  · rw [unexpected_limit limit limit']

/-- The limit does not matter for what stands behind the expression. -/
theorem readEnd_limit (limit limit' : Nat) (tree : Expr) (tokens : List Token) :
    readEnd ⟨endPos, limit⟩ tree tokens = readEnd ⟨endPos, limit'⟩ tree tokens := by
  unfold readEnd
  split
  · rfl
  · rfl
  · rw [unexpected_limit limit limit']

/-- A second branch is read alike with more room if expressions are. -/
theorem readLastBranch_roomier {a b : Expr}
    (ih : ∀ later, later.length < tokens.length →
      EqUnless (TooDeepAt limit) (readExpression ⟨endPos, limit⟩ room later)
        (readExpression ⟨endPos, limit'⟩ room' later)) :
    EqUnless (TooDeepAt limit) (readLastBranch ⟨endPos, limit⟩ room a b tokens)
      (readLastBranch ⟨endPos, limit'⟩ room' a b tokens) := by
  unfold readLastBranch
  split
  · exact (ih _ (Nat.lt_succ_self _)).bind fun _ _ => .rfl
  · rw [unexpected_limit limit limit']
    exact .rfl

/-- So are both branches. -/
theorem readBranches_roomier {a : Expr}
    (ih : ∀ later, later.length < tokens.length →
      EqUnless (TooDeepAt limit) (readExpression ⟨endPos, limit⟩ room later)
        (readExpression ⟨endPos, limit'⟩ room' later)) :
    EqUnless (TooDeepAt limit) (readBranches ⟨endPos, limit⟩ room a tokens)
      (readBranches ⟨endPos, limit'⟩ room' a tokens) := by
  unfold readBranches
  split
  · refine (ih _ (Nat.lt_succ_self _)).bind fun r hr =>
        readLastBranch_roomier fun later hlater => ?_
    have short := Front.shorter_of_pair hr
    exact ih later (by rw [List.length_cons]; omega)
  · exact .rfl

/-- What follows an argument is read alike with more room if the arguments after it are. -/
theorem readMore_roomier {arg : Expr}
    (ih : ∀ later, later.length < tokens.length →
      EqUnless (TooDeepAt limit) (readArgumentsFrom ⟨endPos, limit⟩ pos room later)
        (readArgumentsFrom ⟨endPos, limit'⟩ pos room' later)) :
    EqUnless (TooDeepAt limit) (readMore ⟨endPos, limit⟩ pos room arg tokens)
      (readMore ⟨endPos, limit'⟩ pos room' arg tokens) := by
  unfold readMore
  split
  · exact (ih _ (Nat.lt_succ_self _)).bind fun _ _ => .rfl
  · rw [readClosing_limit limit limit']
    exact .rfl

mutual

/-- **More room changes nothing but `tooDeep`.** -/
theorem readExpression_roomier {room room' : Nat} (h : room ≤ room') (tokens : List Token) :
    EqUnless (TooDeepAt limit) (readExpression ⟨endPos, limit⟩ room tokens)
      (readExpression ⟨endPos, limit'⟩ room' tokens) := by
  cases room with
  | zero =>
    rw [readExpression_zero]
    exact .stopped rfl
  | succ room =>
    obtain ⟨room', rfl⟩ := Nat.exists_eq_add_of_le' (Nat.le_trans (Nat.succ_pos room) h)
    have hle := Nat.le_of_succ_le_succ h
    rw [readExpression_succ, readExpression_succ]
    refine (readOperation_roomier hle 0 tokens).bind fun r hr => ?_
    have short := Front.shorter_of_pair hr
    exact readBranches_roomier fun later hlater => readExpression_roomier hle later
termination_by 10 * tokens.length + 9

/-- With more room operations are read alike. -/
theorem readOperation_roomier {room room' : Nat} (h : room ≤ room') (level : Nat)
    (tokens : List Token) :
    EqUnless (TooDeepAt limit) (readOperation ⟨endPos, limit⟩ level room tokens)
      (readOperation ⟨endPos, limit'⟩ level room' tokens) := by
  rcases Nat.lt_or_ge level BinaryOp.levels with hl | hl
  · have : level < 6 := hl
    rw [readOperation_of_lt hl, readOperation_of_lt hl]
    refine (readOperation_roomier h (level + 1) tokens).bind fun r hr => ?_
    have short := Front.shorter_of_pair hr
    exact readChain_roomier h level r.1 r.2
  · rw [readOperation_of_le hl, readOperation_of_le hl]
    exact readOperand_roomier h tokens
termination_by 10 * tokens.length + 2 + (6 - level)

/-- So is the rest of an operation. -/
theorem readChain_roomier {room room' : Nat} (h : room ≤ room') (level : Nat) (left : Expr)
    (tokens : List Token) :
    EqUnless (TooDeepAt limit) (readChain ⟨endPos, limit⟩ level room left tokens)
      (readChain ⟨endPos, limit'⟩ level room' left tokens) := by
  cases tokens with
  | nil =>
    rw [readChain_nil, readChain_nil]
    exact .rfl
  | cons token tokens =>
    cases hop : operatorAt? level token.lexeme with
    | none =>
      rw [readChain_of_none hop, readChain_of_none hop]
      exact .rfl
    | some op =>
      rw [readChain_of_some hop, readChain_of_some hop]
      refine (readOperation_roomier h (level + 1) tokens).bind fun r hr => ?_
      have short := Front.shorter_of_pair hr
      exact readChain_roomier h level _ r.2
termination_by 10 * tokens.length + 9

/-- A unary operator takes one level of the room on both sides. -/
theorem readOperand_roomier {room room' : Nat} (h : room ≤ room') (tokens : List Token) :
    EqUnless (TooDeepAt limit) (readOperand ⟨endPos, limit⟩ room tokens)
      (readOperand ⟨endPos, limit'⟩ room' tokens) := by
  cases tokens with
  | nil =>
    rw [readOperand_nil, readOperand_nil]
    exact .rfl
  | cons token tokens =>
    cases hop : unaryOp? token.lexeme with
    | none =>
      rw [readOperand_of_none hop, readOperand_of_none hop]
      exact readAtom_roomier h (token :: tokens)
    | some op =>
      cases room with
      | zero =>
        rw [readOperand_zero hop]
        exact .stopped rfl
      | succ room =>
        obtain ⟨room', rfl⟩ := Nat.exists_eq_add_of_le' (Nat.le_trans (Nat.succ_pos room) h)
        rw [readOperand_succ hop, readOperand_succ hop]
        exact (readOperand_roomier (Nat.le_of_succ_le_succ h) tokens).bind fun _ _ => .rfl
termination_by 10 * tokens.length + 1

/-- So are atoms. -/
theorem readAtom_roomier {room room' : Nat} (h : room ≤ room') (tokens : List Token) :
    EqUnless (TooDeepAt limit) (readAtom ⟨endPos, limit⟩ room tokens)
      (readAtom ⟨endPos, limit'⟩ room' tokens) := by
  match tokens with
  | [] =>
    rw [readAtom_nil, readAtom_nil]
    exact .rfl
  | ⟨.number value, p⟩ :: tokens =>
    rw [readAtom_number, readAtom_number]
    exact .rfl
  | ⟨.name name, p⟩ :: tokens =>
    rcases starts_or_ne .openParen tokens with ⟨q, later, rfl⟩ | noCall
    · rw [readAtom_call, readAtom_call]
      exact (readArguments_roomier h p later).bind fun _ _ => .rfl
    · rw [readAtom_var noCall, readAtom_var noCall]
      exact .rfl
  | ⟨.symbol s, p⟩ :: tokens =>
    by_cases hs : s = .openParen
    · subst hs
      rw [readAtom_group, readAtom_group]
      refine (readExpression_roomier h tokens).bind fun ⟨inner, rest⟩ _ => ?_
      dsimp only
      rw [readClosing_limit limit limit']
      exact .rfl
    · rw [readAtom_symbol hs, readAtom_symbol hs]
      exact .rfl
termination_by 10 * tokens.length

/-- So are arguments. -/
theorem readArguments_roomier {room room' : Nat} (h : room ≤ room') (pos : Nat)
    (tokens : List Token) :
    EqUnless (TooDeepAt limit) (readArguments ⟨endPos, limit⟩ pos room tokens)
      (readArguments ⟨endPos, limit'⟩ pos room' tokens) := by
  rcases starts_or_ne .closeParen tokens with ⟨p, later, rfl⟩ | noClose
  · rw [readArguments_close, readArguments_close]
    exact .rfl
  · rw [readArguments_of_ne noClose, readArguments_of_ne noClose]
    exact readArgumentsFrom_roomier h pos tokens
termination_by 10 * tokens.length + 11

/-- So is the loop over them. -/
theorem readArgumentsFrom_roomier {room room' : Nat} (h : room ≤ room') (pos : Nat)
    (tokens : List Token) :
    EqUnless (TooDeepAt limit) (readArgumentsFrom ⟨endPos, limit⟩ pos room tokens)
      (readArgumentsFrom ⟨endPos, limit'⟩ pos room' tokens) := by
  rw [readArgumentsFrom_eq, readArgumentsFrom_eq]
  refine (readExpression_roomier h tokens).bind fun r hr => ?_
  have short := Front.shorter_of_pair hr
  exact readMore_roomier fun later hlater => readArgumentsFrom_roomier h pos later
termination_by 10 * tokens.length + 10

end

/-- **A higher limit changes nothing but `tooDeep`**: whatever a row of tokens is parsed to, be it a
tree or an error, it is parsed to under every higher limit, unless it was too deep. -/
theorem parse_roomier (h : limit ≤ limit') (tokens : List Token) :
    EqUnless (TooDeepAt limit) (parse limit tokens) (parse limit' tokens) := by
  cases tokens with
  | nil =>
    rw [parse_nil, parse_nil]
    exact .rfl
  | cons token tokens =>
    rw [parse_cons, parse_cons]
    refine (readExpression_roomier h (token :: tokens)).bind fun ⟨tree, rest⟩ _ => ?_
    dsimp only
    rw [readEnd_limit limit limit']
    exact .rfl

end Expr
end Formula
end GuildRating
