/-
# The readers as pairs

The readers of a formula return the rest of the tokens with a proof that it is shorter.  Here each
reader has a twin that returns a plain pair (`readExpression`, `readOperation`, ...), and one
equation per case of its definition.  Proofs about the parser rewrite with these equations and
never open the readers.
-/

import GuildRating.Formula.Expr.Parser
import GuildRating.Proofs.Steps

namespace GuildRating
namespace Formula
namespace Expr

variable {frame : Frame} {level room pos : Nat} {tokens : List Token}

/-- Reads an expression. -/
def readExpression (frame : Frame) (room : Nat) (tokens : List Token) :
    Except GrammarError (Expr × List Token) :=
  (expression frame room tokens).map Front.pair

/-- Reads an operation of a level. -/
def readOperation (frame : Frame) (level room : Nat) (tokens : List Token) :
    Except GrammarError (Expr × List Token) :=
  (operation frame level room tokens).map Front.pair

/-- Continues an operation whose left side is read.  The loop never looks at the tokens that its
left side took, so any token may stand for them. -/
def readChain (frame : Frame) (level room : Nat) (left : Expr) (tokens : List Token) :
    Except GrammarError (Expr × List Token) :=
  (operationFrom frame level room
    (⟨left, tokens, Nat.lt_succ_self _⟩ :
      Front (⟨.symbol .comma, 0⟩ :: tokens) Expr)).map Front.pair

/-- Reads an operand. -/
def readOperand (frame : Frame) (room : Nat) (tokens : List Token) :
    Except GrammarError (Expr × List Token) :=
  (operand frame room tokens).map Front.pair

/-- Reads an atom. -/
def readAtom (frame : Frame) (room : Nat) (tokens : List Token) :
    Except GrammarError (Expr × List Token) :=
  (atom frame room tokens).map Front.pair

/-- Reads the arguments of the call at a place, perhaps none, and the closing parenthesis. -/
def readArguments (frame : Frame) (pos room : Nat) (tokens : List Token) :
    Except GrammarError (List Expr × List Token) :=
  (arguments frame pos room tokens).map Front.pair

/-- Reads one argument or more, and the closing parenthesis. -/
def readArgumentsFrom (frame : Frame) (pos room : Nat) (tokens : List Token) :
    Except GrammarError (List Expr × List Token) :=
  (argumentsFrom frame pos room tokens).map Front.pair

/-- The second branch of a conditional, after its colon. -/
def readLastBranch (frame : Frame) (room : Nat) (condition whenTrue : Expr) :
    List Token → Except GrammarError (Expr × List Token)
  | ⟨.symbol .colon, _⟩ :: rest => do
    let (whenFalse, rest) ← readExpression frame room rest
    return (.conditional condition whenTrue whenFalse, rest)
  | other => .error (frame.unexpected .colon other)

/-- What follows the condition of a conditional. -/
def readBranches (frame : Frame) (room : Nat) (condition : Expr) :
    List Token → Except GrammarError (Expr × List Token)
  | ⟨.symbol .question, _⟩ :: rest => do
    let (whenTrue, rest) ← readExpression frame room rest
    readLastBranch frame room condition whenTrue rest
  | rest => return (condition, rest)

/-- Takes the parenthesis that closes the one at a place. -/
def readClosing (frame : Frame) (opened : Nat) : List Token → Except GrammarError (List Token)
  | ⟨.symbol .closeParen, _⟩ :: rest => .ok rest
  | [] => .error (.unbalanced opened)
  | other => .error (frame.unexpected .closeParen other)

/-- What follows an argument: the closing parenthesis, or a comma and more arguments. -/
def readMore (frame : Frame) (pos room : Nat) (arg : Expr) :
    List Token → Except GrammarError (List Expr × List Token)
  | ⟨.symbol .comma, _⟩ :: rest => do
    let (others, rest) ← readArgumentsFrom frame pos room rest
    return (arg :: others, rest)
  | other => do
    let rest ← readClosing frame pos other
    return ([arg], rest)

/-- What stands behind the whole expression. -/
def readEnd (frame : Frame) (tree : Expr) : List Token → Except GrammarError Expr
  | [] => .ok tree
  | ⟨.symbol .closeParen, pos⟩ :: _ => .error (.unbalanced pos)
  | rest => .error (frame.unexpected .operatorOrEnd rest)

/-- A row starts with the symbol or it does not. -/
theorem starts_or_ne (s : Symbol) (tokens : List Token) :
    (∃ p later, tokens = ⟨.symbol s, p⟩ :: later) ∨
      ∀ p later, tokens ≠ ⟨.symbol s, p⟩ :: later := by
  by_cases h : ∃ p later, tokens = ⟨.symbol s, p⟩ :: later
  · exact .inl h
  · exact .inr fun p later he => h ⟨p, later, he⟩

/-- Without room no expression is read. -/
theorem readExpression_zero : readExpression frame 0 tokens = .error (.tooDeep frame.limit) := by
  rw [readExpression, expression]; rfl

/-- An expression is an operation of the outermost level and perhaps branches. -/
theorem readExpression_succ : readExpression frame (room + 1) tokens = (do
    let (condition, rest) ← readOperation frame 0 room tokens
    readBranches frame room condition rest) := by
  rw [readExpression, readOperation, expression]
  cases operation frame 0 room tokens with
  | error e => rfl
  | ok condition =>
    obtain ⟨value, rest, shorter⟩ := condition
    simp only [ok_bind, map_ok, Front.pair_mk]
    split
    · rw [readBranches, readExpression]
      cases expression frame room _ with
      | error e => rfl
      | ok whenTrue =>
        obtain ⟨value', rest', shorter'⟩ := whenTrue
        simp only [ok_bind, map_ok, Front.pair_mk]
        split
        · rw [readLastBranch, readExpression]
          cases expression frame room _ with
          | error e => rfl
          | ok whenFalse => rfl
        · next h =>
          rw [readLastBranch]
          · rfl
          · exact h
    · next h =>
      rw [readBranches]
      · rfl
      · exact h

/-- The loop reads the same whatever its left side took. -/
theorem operationFrom_pair {whole whole' : List Token} {value : Expr} :
    {rest : List Token} → (h : rest.length < whole.length) → (h' : rest.length < whole'.length) →
    (operationFrom frame level room (⟨value, rest, h⟩ : Front whole Expr)).map Front.pair =
      (operationFrom frame level room (⟨value, rest, h'⟩ : Front whole' Expr)).map Front.pair
  | [], _, _ => by rw [operationFrom, operationFrom]; rfl
  | token :: rest, _, _ => by
    rw [operationFrom, operationFrom]
    dsimp only
    cases operatorAt? level token.lexeme with
    | none => rfl
    | some op =>
      dsimp only
      cases operation frame (level + 1) room rest with
      | error e => rfl
      | ok right => exact operationFrom_pair _ _
termination_by rest => rest.length
decreasing_by
  have := right.shorter
  simp
  omega

theorem readChain_nil {left : Expr} : readChain frame level room left [] = .ok (left, []) := by
  rw [readChain, operationFrom]
  rfl

/-- The loop of a level ends at a token that is none of its operators. -/
theorem readChain_of_none {left : Expr} {token : Token}
    (h : operatorAt? level token.lexeme = none) :
    readChain frame level room left (token :: tokens) = .ok (left, token :: tokens) := by
  rw [readChain, operationFrom]
  simp only [h]
  rfl

/-- An operator of the level is followed by an operation of the next, and the loop goes on with both
sides joined. -/
theorem readChain_of_some {left : Expr} {token : Token} {op : BinaryOp}
    (h : operatorAt? level token.lexeme = some op) :
    readChain frame level room left (token :: tokens) = (do
      let (right, rest) ← readOperation frame (level + 1) room tokens
      readChain frame level room (.binary op left right) rest) := by
  rw [readChain, operationFrom, readOperation]
  simp only [h]
  cases operation frame (level + 1) room tokens with
  | error e => rfl
  | ok right => exact operationFrom_pair _ _

/-- An operation begins with one of the next level, and the loop goes on from it. -/
theorem readOperation_of_lt (h : level < BinaryOp.levels) :
    readOperation frame level room tokens = (do
      let (left, rest) ← readOperation frame (level + 1) room tokens
      readChain frame level room left rest) := by
  rw [readOperation, operation, if_pos h, readOperation]
  cases operation frame (level + 1) room tokens with
  | error e => rfl
  | ok left => exact operationFrom_pair _ _

/-- Behind the last level there is the operand. -/
theorem readOperation_of_le (h : BinaryOp.levels ≤ level) :
    readOperation frame level room tokens = readOperand frame room tokens := by
  rw [readOperation, operation, if_neg (Nat.not_lt_of_le h), readOperand]

/-- Without a unary operator an operand is an atom. -/
theorem readOperand_of_none {token : Token} (h : unaryOp? token.lexeme = none) :
    readOperand frame room (token :: tokens) = readAtom frame room (token :: tokens) := by
  rw [readOperand, operand, readAtom]
  simp only [h]

/-- Without room nothing is read behind a unary operator. -/
theorem readOperand_zero {token : Token} {op : UnaryOp} (h : unaryOp? token.lexeme = some op) :
    readOperand frame 0 (token :: tokens) = .error (.tooDeep frame.limit) := by
  rw [readOperand, operand]
  simp only [h]
  rfl

/-- A unary operator is followed by an operand, with one level less of room. -/
theorem readOperand_succ {token : Token} {op : UnaryOp} (h : unaryOp? token.lexeme = some op) :
    readOperand frame (room + 1) (token :: tokens) = (do
      let (inner, rest) ← readOperand frame room tokens
      return (.unary op inner, rest)) := by
  rw [readOperand, operand, readOperand]
  simp only [h]
  cases operand frame room tokens <;> rfl

theorem readOperand_nil :
    readOperand frame room [] = .error (.unexpected frame.endPos .operand none) := by
  rw [readOperand, operand, atom]
  · rfl
  all_goals simp

theorem readAtom_number {value : Double} :
    readAtom frame room (⟨.number value, pos⟩ :: tokens) = .ok (.number value, tokens) := by
  rw [readAtom, atom]
  rfl

/-- A name before a parenthesis is a call. -/
theorem readAtom_call {name : String} {pos' : Nat} :
    readAtom frame room (⟨.name name, pos⟩ :: ⟨.symbol .openParen, pos'⟩ :: tokens) = (do
      let (args, rest) ← readArguments frame pos room tokens
      return (.call name args, rest)) := by
  rw [readAtom, atom, readArguments]
  cases arguments frame pos room tokens <;> rfl

/-- Any other name is a variable. -/
theorem readAtom_var {name : String}
    (h : ∀ pos' rest, tokens ≠ ⟨.symbol .openParen, pos'⟩ :: rest) :
    readAtom frame room (⟨.name name, pos⟩ :: tokens) = .ok (.var name, tokens) := by
  rw [readAtom, atom]
  · rfl
  · exact h

/-- Taking a parenthesis returns what is behind it. -/
theorem map_closing {opened : Nat} :
    (closing frame opened tokens).map Front.rest = readClosing frame opened tokens := by
  unfold closing
  split
  · rfl
  · rfl
  · next h h' =>
    rw [readClosing]
    · rfl
    · exact h
    · exact h'

/-- A parenthesis opens a group, which has to be closed. -/
theorem readAtom_group :
    readAtom frame room (⟨.symbol .openParen, pos⟩ :: tokens) = (do
      let (inner, rest) ← readExpression frame room tokens
      let rest ← readClosing frame pos rest
      return (inner, rest)) := by
  rw [readAtom, atom, readExpression]
  cases expression frame room tokens with
  | error e => rfl
  | ok inner =>
    simp only [ok_bind, map_ok, Front.pair, ← map_closing]
    cases closing frame pos inner.rest <;> rfl

/-- No other symbol begins an atom. -/
theorem readAtom_symbol {s : Symbol} (hs : s ≠ .openParen) :
    readAtom frame room (⟨.symbol s, pos⟩ :: tokens) =
      .error (.unexpected pos .operand (some (.symbol s))) := by
  rw [readAtom, atom]
  · rfl
  all_goals simp [hs]

theorem readAtom_nil :
    readAtom frame room [] = .error (.unexpected frame.endPos .operand none) := by
  rw [readAtom, atom]
  · rfl
  all_goals simp

/-- A call may have no arguments. -/
theorem readArguments_close {pos' : Nat} :
    readArguments frame pos room (⟨.symbol .closeParen, pos'⟩ :: tokens) = .ok ([], tokens) := by
  rw [readArguments, arguments]
  rfl

/-- If it is not closed at once, it has one or more. -/
theorem readArguments_of_ne (h : ∀ pos' rest, tokens ≠ ⟨.symbol .closeParen, pos'⟩ :: rest) :
    readArguments frame pos room tokens = readArgumentsFrom frame pos room tokens := by
  rw [readArguments, arguments, readArgumentsFrom]
  exact h

/-- An argument is an expression, and more may follow. -/
theorem readArgumentsFrom_eq :
    readArgumentsFrom frame pos room tokens = (do
      let (arg, rest) ← readExpression frame room tokens
      readMore frame pos room arg rest) := by
  rw [readArgumentsFrom, argumentsFrom, readExpression]
  cases expression frame room tokens with
  | error e => rfl
  | ok arg =>
    obtain ⟨value, rest, shorter⟩ := arg
    simp only [ok_bind, map_ok, Front.pair_mk]
    split
    · rw [readMore, readArgumentsFrom]
      cases argumentsFrom frame pos room _ <;> rfl
    · next h =>
      rw [readMore, ← map_closing]
      · cases closing frame pos _ <;> rfl
      · exact h

/-- An empty row is refused before anything is read. -/
theorem parse_nil {limit : Nat} : parse limit [] = .error .empty := by rw [parse]; rfl

/-- Any other row is read as an expression, and nothing may stand behind it. -/
theorem parse_cons {limit : Nat} {token : Token} : parse limit (token :: tokens) = (do
    let (tree, rest) ← readExpression ⟨endOf (token :: tokens), limit⟩ limit (token :: tokens)
    readEnd ⟨endOf (token :: tokens), limit⟩ tree rest) := by
  rw [parse, if_neg (by simp), readExpression]
  dsimp only
  cases expression ⟨endOf (token :: tokens), limit⟩ limit (token :: tokens) with
  | error e => rfl
  | ok tree =>
    obtain ⟨value, rest, shorter⟩ := tree
    simp only [ok_bind, map_ok, Front.pair_mk]
    split
    · rfl
    · rfl
    · next h h' =>
      rw [readEnd]
      · exact h
      · exact h'

end Expr
end Formula
end GuildRating
