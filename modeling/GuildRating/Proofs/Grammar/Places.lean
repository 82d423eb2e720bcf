/-
# The parser looks at lexemes only

Two rows with the same lexemes at different places are parsed alike: to the same tree, or to
errors that differ in their places only (`parse_placeless`).  It is shown by setting all places to
zero: every reader commutes with that.
-/

import GuildRating.Proofs.Grammar.Reading

namespace GuildRating
namespace Formula

/-- The lexeme of a token at the place zero. -/
def Token.placeless (token : Token) : Token := ⟨token.lexeme, 0⟩

/-- The error without its place. -/
def GrammarError.placeless : GrammarError → GrammarError
  | unexpected _ expected found => unexpected 0 expected found
  | unbalanced _ => unbalanced 0
  | tooDeep limit => tooDeep limit
  | empty => empty

namespace Expr

variable {frame : Frame} {level room pos pos' : Nat} {tokens : List Token}

/-- The frame of a row whose places are zero. -/
def Frame.placeless (frame : Frame) : Frame := ⟨0, frame.limit⟩

/-- What was read without any places. -/
def forget {α : Type} (x : Except GrammarError (α × List Token)) :
    Except GrammarError (α × List Token) :=
  (x.map fun r => (r.1, r.2.map Token.placeless)).mapError GrammarError.placeless

/-- A complaint about the next token is about its lexeme, but for the place. -/
theorem unexpected_placeless (expected : Expected) :
    (frame.unexpected expected tokens).placeless =
      frame.placeless.unexpected expected (tokens.map Token.placeless) := by
  cases tokens <;> rfl

/-- Which symbol is next does not depend on places. -/
theorem ne_placeless {s : Symbol} (h : ∀ p later, tokens ≠ ⟨.symbol s, p⟩ :: later) :
    ∀ p later, tokens.map Token.placeless ≠ ⟨.symbol s, p⟩ :: later := by
  rintro p later he
  obtain ⟨token, later', rfl, htoken, -⟩ := List.map_eq_cons_iff.1 he
  have hlexeme : token.lexeme = .symbol s := congrArg Token.lexeme htoken
  exact h token.pos later' (by rw [← hlexeme])

/-- The reader of a closing parenthesis looks at lexemes only. -/
theorem readClosing_placeless :
    ((readClosing frame pos tokens).map (List.map Token.placeless)).mapError
        GrammarError.placeless =
      readClosing frame.placeless 0 (tokens.map Token.placeless) := by
  rcases starts_or_ne .closeParen tokens with ⟨p, later, rfl⟩ | h
  · rfl
  · cases tokens with
    | nil => rfl
    | cons token later =>
      rw [readClosing, readClosing]
      · exact congrArg Except.error (unexpected_placeless .closeParen)
      · exact ne_placeless h
      · exact List.cons_ne_nil _ _
      · exact h
      · exact List.cons_ne_nil _ _

/-- The reader of a second branch does if that of expressions does. -/
theorem readLastBranch_placeless {a b : Expr}
    (ih : ∀ later, later.length < tokens.length →
      forget (readExpression frame room later) =
        readExpression frame.placeless room (later.map Token.placeless)) :
    forget (readLastBranch frame room a b tokens) =
      readLastBranch frame.placeless room a b (tokens.map Token.placeless) := by
  rcases starts_or_ne .colon tokens with ⟨p, later, rfl⟩ | h
  · rw [List.map_cons, Token.placeless, readLastBranch, readLastBranch, ← ih later (by simp)]
    cases readExpression frame room later <;> rfl
  · rw [readLastBranch, readLastBranch]
    · exact congrArg Except.error (unexpected_placeless .colon)
    · exact ne_placeless h
    · exact h

/-- So does the reader of both branches. -/
theorem readBranches_placeless {a : Expr}
    (ih : ∀ later, later.length < tokens.length →
      forget (readExpression frame room later) =
        readExpression frame.placeless room (later.map Token.placeless)) :
    forget (readBranches frame room a tokens) =
      readBranches frame.placeless room a (tokens.map Token.placeless) := by
  rcases starts_or_ne .question tokens with ⟨p, later, rfl⟩ | h
  · rw [List.map_cons, Token.placeless, readBranches, readBranches, ← ih later (by simp)]
    cases hb : readExpression frame room later with
    | error e => rfl
    | ok r =>
      obtain ⟨b, rest⟩ := r
      have short := Front.shorter_of_pair hb
      refine readLastBranch_placeless fun later hlater => ih later ?_
      rw [List.length_cons]
      omega
  · rw [readBranches, readBranches]
    · rfl
    · exact ne_placeless h
    · exact h

/-- What follows an argument is read by its lexemes if the arguments after it are. -/
theorem readMore_placeless {arg : Expr}
    (ih : ∀ later, later.length < tokens.length →
      forget (readArgumentsFrom frame pos room later) =
        readArgumentsFrom frame.placeless 0 room (later.map Token.placeless)) :
    forget (readMore frame pos room arg tokens) =
      readMore frame.placeless 0 room arg (tokens.map Token.placeless) := by
  rcases starts_or_ne .comma tokens with ⟨p, later, rfl⟩ | h
  · rw [List.map_cons, Token.placeless, readMore, readMore, ← ih later (by simp)]
    cases readArgumentsFrom frame pos room later <;> rfl
  · rw [readMore, readMore, ← @readClosing_placeless frame pos]
    · cases readClosing frame pos tokens <;> rfl
    · exact ne_placeless h
    · exact h

mutual

/-- **The reader of expressions looks at lexemes only**, and so do all others with it. -/
theorem readExpression_placeless (frame : Frame) (room : Nat) (tokens : List Token) :
    forget (readExpression frame room tokens) =
      readExpression frame.placeless room (tokens.map Token.placeless) := by
  cases room with
  | zero =>
    rw [readExpression_zero, readExpression_zero]
    rfl
  | succ room =>
    rw [readExpression_succ, readExpression_succ, ← readOperation_placeless frame 0 room tokens]
    cases ha : readOperation frame 0 room tokens with
    | error e => rfl
    | ok r =>
      obtain ⟨a, rest⟩ := r
      have short := Front.shorter_of_pair ha
      exact readBranches_placeless fun later hlater => readExpression_placeless frame room later
termination_by 10 * tokens.length + 9

theorem readOperation_placeless (frame : Frame) (level room : Nat) (tokens : List Token) :
    forget (readOperation frame level room tokens) =
      readOperation frame.placeless level room (tokens.map Token.placeless) := by
  rcases Nat.lt_or_ge level BinaryOp.levels with hl | hl
  · have : level < 6 := hl
    rw [readOperation_of_lt hl, readOperation_of_lt hl,
      ← readOperation_placeless frame (level + 1) room tokens]
    cases hleft : readOperation frame (level + 1) room tokens with
    | error e => rfl
    | ok r =>
      obtain ⟨left, rest⟩ := r
      have short := Front.shorter_of_pair hleft
      exact readChain_placeless frame level room left rest
  · rw [readOperation_of_le hl, readOperation_of_le hl]
    exact readOperand_placeless frame room tokens
termination_by 10 * tokens.length + 2 + (6 - level)

theorem readChain_placeless (frame : Frame) (level room : Nat) (left : Expr)
    (tokens : List Token) :
    forget (readChain frame level room left tokens) =
      readChain frame.placeless level room left (tokens.map Token.placeless) := by
  cases tokens with
  | nil =>
    rw [readChain_nil, List.map_nil, readChain_nil]
    rfl
  | cons token tokens =>
    rw [List.map_cons]
    cases hop : operatorAt? level token.lexeme with
    | none =>
      have hop' : operatorAt? level token.placeless.lexeme = none := hop
      rw [readChain_of_none hop, readChain_of_none hop']
      rfl
    | some op =>
      have hop' : operatorAt? level token.placeless.lexeme = some op := hop
      rw [readChain_of_some hop, readChain_of_some hop',
        ← readOperation_placeless frame (level + 1) room tokens]
      cases hright : readOperation frame (level + 1) room tokens with
      | error e => rfl
      | ok r =>
        obtain ⟨right, rest⟩ := r
        have short := Front.shorter_of_pair hright
        exact readChain_placeless frame level room _ rest
termination_by 10 * tokens.length + 9

theorem readOperand_placeless (frame : Frame) (room : Nat) (tokens : List Token) :
    forget (readOperand frame room tokens) =
      readOperand frame.placeless room (tokens.map Token.placeless) := by
  cases tokens with
  | nil =>
    rw [readOperand_nil, List.map_nil, readOperand_nil]
    rfl
  | cons token tokens =>
    cases hop : unaryOp? token.lexeme with
    | none =>
      have hop' : unaryOp? token.placeless.lexeme = none := hop
      rw [readOperand_of_none hop, List.map_cons, readOperand_of_none hop']
      exact readAtom_placeless frame room (token :: tokens)
    | some op =>
      have hop' : unaryOp? token.placeless.lexeme = some op := hop
      rw [List.map_cons]
      cases room with
      | zero =>
        rw [readOperand_zero hop, readOperand_zero hop']
        rfl
      | succ room =>
        rw [readOperand_succ hop, readOperand_succ hop',
          ← readOperand_placeless frame room tokens]
        cases readOperand frame room tokens <;> rfl
termination_by 10 * tokens.length + 1

theorem readAtom_placeless (frame : Frame) (room : Nat) (tokens : List Token) :
    forget (readAtom frame room tokens) =
      readAtom frame.placeless room (tokens.map Token.placeless) := by
  match tokens with
  | [] =>
    rw [readAtom_nil, List.map_nil, readAtom_nil]
    rfl
  | ⟨.number value, p⟩ :: tokens =>
    rw [List.map_cons, Token.placeless, readAtom_number, readAtom_number]
    rfl
  | ⟨.name name, p⟩ :: tokens =>
    rw [List.map_cons, Token.placeless]
    rcases starts_or_ne .openParen tokens with ⟨q, later, rfl⟩ | h
    · rw [List.map_cons, Token.placeless, readAtom_call, readAtom_call,
        ← readArguments_placeless frame p room later]
      cases readArguments frame p room later <;> rfl
    · rw [readAtom_var h, readAtom_var (ne_placeless h)]
      rfl
  | ⟨.symbol s, p⟩ :: tokens =>
    rw [List.map_cons, Token.placeless]
    by_cases hs : s = .openParen
    · subst hs
      rw [readAtom_group, readAtom_group, ← readExpression_placeless frame room tokens]
      cases readExpression frame room tokens with
      | error e => rfl
      | ok r =>
        obtain ⟨inner, rest⟩ := r
        simp only [ok_bind, forget, map_ok, mapError_ok]
        rw [← @readClosing_placeless frame p]
        cases readClosing frame p rest <;> rfl
    · rw [readAtom_symbol hs, readAtom_symbol hs]
      rfl
termination_by 10 * tokens.length

theorem readArguments_placeless (frame : Frame) (pos room : Nat) (tokens : List Token) :
    forget (readArguments frame pos room tokens) =
      readArguments frame.placeless 0 room (tokens.map Token.placeless) := by
  rcases starts_or_ne .closeParen tokens with ⟨p, later, rfl⟩ | h
  · rw [List.map_cons, Token.placeless, readArguments_close, readArguments_close]
    rfl
  · rw [readArguments_of_ne h, readArguments_of_ne (ne_placeless h)]
    exact readArgumentsFrom_placeless frame pos room tokens
termination_by 10 * tokens.length + 11

theorem readArgumentsFrom_placeless (frame : Frame) (pos room : Nat) (tokens : List Token) :
    forget (readArgumentsFrom frame pos room tokens) =
      readArgumentsFrom frame.placeless 0 room (tokens.map Token.placeless) := by
  rw [readArgumentsFrom_eq, readArgumentsFrom_eq, ← readExpression_placeless frame room tokens]
  cases harg : readExpression frame room tokens with
  | error e => rfl
  | ok r =>
    obtain ⟨arg, rest⟩ := r
    have short := Front.shorter_of_pair harg
    exact readMore_placeless fun later hlater => readArgumentsFrom_placeless frame pos room later
termination_by 10 * tokens.length + 10

end

/-- What stands behind the expression is seen by its lexeme. -/
theorem readEnd_placeless (frame : Frame) (tree : Expr) (tokens : List Token) :
    (readEnd frame tree tokens).mapError GrammarError.placeless =
      readEnd frame.placeless tree (tokens.map Token.placeless) := by
  rcases starts_or_ne .closeParen tokens with ⟨p, later, rfl⟩ | h
  · rfl
  · cases tokens with
    | nil => rfl
    | cons token later =>
      rw [readEnd, readEnd]
      · exact congrArg Except.error (unexpected_placeless .operatorOrEnd)
      · exact List.cons_ne_nil _ _
      · exact ne_placeless h
      · exact List.cons_ne_nil _ _
      · exact h

/-- Apart from the places in the error, parsing needs the tokens without their places. -/
theorem parse_cons_placeless {limit : Nat} {token : Token} {tokens : List Token} :
    (parse limit (token :: tokens)).mapError GrammarError.placeless = (do
      let (tree, rest) ← readExpression ⟨0, limit⟩ limit ((token :: tokens).map Token.placeless)
      readEnd ⟨0, limit⟩ tree rest) := by
  have same := readExpression_placeless ⟨endOf (token :: tokens), limit⟩ limit (token :: tokens)
  rw [Frame.placeless] at same
  rw [parse_cons, ← same]
  cases readExpression ⟨endOf (token :: tokens), limit⟩ limit (token :: tokens) with
  | error e => rfl
  | ok r =>
    obtain ⟨tree, rest⟩ := r
    exact readEnd_placeless _ tree rest

/-- **The parser looks at lexemes only**: rows with the same lexemes have the same tree, or errors
that differ in their places only. -/
theorem parse_placeless {limit : Nat} {tokens tokens' : List Token}
    (h : tokens.map Token.lexeme = tokens'.map Token.lexeme) :
    (parse limit tokens).mapError GrammarError.placeless =
      (parse limit tokens').mapError GrammarError.placeless := by
  cases tokens with
  | nil =>
    obtain rfl : tokens' = [] := List.map_eq_nil_iff.1 h.symm
    rfl
  | cons token tokens =>
    obtain ⟨token', later, rfl, -⟩ := List.map_eq_cons_iff.1 h.symm
    have same : (token :: tokens).map Token.placeless = (token' :: later).map Token.placeless := by
      have := congrArg (List.map fun lexeme => (⟨lexeme, 0⟩ : Token)) h
      rwa [List.map_map, List.map_map] at this
    rw [parse_cons_placeless, parse_cons_placeless, same]

end Expr
end Formula
end GuildRating
