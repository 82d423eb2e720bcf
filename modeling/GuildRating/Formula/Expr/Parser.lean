/-
# Reading expressions

`Expr.parse` reads a row of tokens as one expression.  Binary operators have six levels and group
to the left, the conditional groups to the right, and a unary operator binds closer than any
binary one.  Nesting is bounded: an expression, be it whole, in parentheses, an argument or a
branch of a conditional, takes one level of the room that is left, and so does the operand of
a unary operator.  The room is looked at before anything else, so that the depth of the recursion
never exceeds it.
-/

import GuildRating.Formula.Expr
import GuildRating.Formula.Token
import GuildRating.Text.Basic

namespace GuildRating
namespace Formula

/-- What the parser waits for when a token disappoints it. -/
inductive Expected where
  | operand
  | closeParen
  | colon
  | operatorOrEnd
deriving DecidableEq, Repr

/-- Why a row of tokens is no expression. -/
inductive GrammarError where
  /-- A token that cannot stand here, or the end of the formula where none is found. -/
  | unexpected (pos : Nat) (expected : Expected) (found : Option Lexeme)
  /-- A parenthesis without its partner. -/
  | unbalanced (pos : Nat)
  | tooDeep (limit : Nat)
  | empty
deriving DecidableEq

/-- What was expected, in words. -/
def Expected.text : Expected → String
  | operand => "a number, variable, function call or '('"
  | closeParen => "')'"
  | colon => "':'"
  | operatorOrEnd => "an operator or end of formula"

/-- The message of an error, with its place in the text. -/
def GrammarError.message : GrammarError → String
  | unexpected pos expected found =>
    "expected " ++ expected.text ++ " at position " ++ toString pos ++ ", found " ++
      (found.map Lexeme.text).getD "end of formula"
  | unbalanced pos => "unbalanced parentheses at position " ++ toString pos
  | tooDeep limit =>
    "formula is nested too deeply (maximum depth is " ++ toString limit ++ ")"
  | empty => "formula is empty"

/-- The unary operator that a lexeme stands for before an operand. -/
def unaryOp? : Lexeme → Option UnaryOp
  | .symbol .minus => some .neg
  | .symbol .bang => some .not
  | _ => none

/-- The binary operator that a lexeme stands for between two operands. -/
def binaryOp? : Lexeme → Option BinaryOp
  | .symbol .orOr => some .or
  | .symbol .andAnd => some .and
  | .symbol .equalEqual => some .equal
  | .symbol .notEqual => some .notEqual
  | .symbol .less => some .less
  | .symbol .lessEqual => some .lessEqual
  | .symbol .greater => some .greater
  | .symbol .greaterEqual => some .greaterEqual
  | .symbol .plus => some .add
  | .symbol .minus => some .sub
  | .symbol .star => some .mul
  | .symbol .slash => some .div
  | .symbol .percent => some .rem
  | _ => none

/-- How many levels there are. -/
def BinaryOp.levels : Nat := 6

/-- The level of an operator; a higher one binds closer. -/
def BinaryOp.level : BinaryOp → Nat
  | or => 0
  | and => 1
  | equal | notEqual => 2
  | less | lessEqual | greater | greaterEqual => 3
  | add | sub => 4
  | mul | div | rem => 5

/-- The binary operator of a level that a lexeme stands for. -/
def operatorAt? (level : Nat) (lexeme : Lexeme) : Option BinaryOp :=
  (binaryOp? lexeme).filter fun op => op.level = level

namespace Expr

/-- What stays the same while one formula is read. -/
structure Frame where
  /-- Just behind the first character of the last token. -/
  endPos : Nat
  /-- The room at the start, for the error. -/
  limit : Nat

/-- The first of these tokens is not what is due. -/
def Frame.unexpected (frame : Frame) (expected : Expected) : List Token → GrammarError
  | token :: _ => .unexpected token.pos expected (some token.lexeme)
  | [] => .unexpected frame.endPos expected none

/-- Takes the parenthesis that closes the one at `opened`. -/
def closing (frame : Frame) (opened : Nat) (tokens : List Token) :
    Except GrammarError (Front tokens Unit) :=
  match tokens with
  | ⟨.symbol .closeParen, _⟩ :: rest => .ok ⟨(), rest, by simp⟩
  | [] => .error (.unbalanced opened)
  | other => .error (frame.unexpected .closeParen other)

mutual

/-- Reads an expression: operands and binary operators, then perhaps a conditional's branches. -/
def expression (frame : Frame) (room : Nat) (tokens : List Token) :
    Except GrammarError (Front tokens Expr) :=
  match room with
  | 0 => .error (.tooDeep frame.limit)
  | room + 1 => do
    let condition ← operation frame 0 room tokens
    match h : condition.rest with
    | ⟨.symbol .question, _⟩ :: afterQuestion =>
      let whenTrue ← expression frame room afterQuestion
      match h' : whenTrue.rest with
      | ⟨.symbol .colon, _⟩ :: afterColon =>
        let whenFalse ← expression frame room afterColon
        return ⟨.conditional condition.value whenTrue.value whenFalse.value, whenFalse.rest, by
          have := condition.shorter; have := whenTrue.shorter; have := whenFalse.shorter
          simp [h, h'] at *; omega⟩
      | other => .error (frame.unexpected .colon other)
    | _ => return condition
termination_by 10 * tokens.length + 9
decreasing_by
  · omega
  · have := condition.shorter
    simp [h] at *
    omega
  · have := condition.shorter
    have := whenTrue.shorter
    simp [h, h'] at *
    omega

/-- Reads operands joined by operators of this level and closer ones. -/
def operation (frame : Frame) (level room : Nat) (tokens : List Token) :
    Except GrammarError (Front tokens Expr) :=
  if level < BinaryOp.levels then do
    let left ← operation frame (level + 1) room tokens
    operationFrom frame level room left
  else operand frame room tokens
termination_by 10 * tokens.length + 2 + (6 - level)
decreasing_by
  · simp only [BinaryOp.levels] at *
    omega
  · have := left.shorter
    omega
  · omega

/-- Continues an operation whose left side is read. -/
def operationFrom (frame : Frame) (level room : Nat) {whole : List Token}
    (left : Front whole Expr) : Except GrammarError (Front whole Expr) :=
  match h : left.rest with
  | [] => .ok left
  | token :: rest =>
    match operatorAt? level token.lexeme with
    | none => .ok left
    | some op => do
      let right ← operation frame (level + 1) room rest
      operationFrom frame level room ⟨.binary op left.value right.value, right.rest, by
        have := left.shorter; have := right.shorter
        simp [h] at *; omega⟩
termination_by 10 * left.rest.length + 9
decreasing_by
  · simp [h]
    omega
  · have := right.shorter
    simp [h]
    omega

/-- Reads an operand with its unary operators. -/
def operand (frame : Frame) (room : Nat) (tokens : List Token) :
    Except GrammarError (Front tokens Expr) :=
  match tokens with
  | [] => atom frame room []
  | token :: rest =>
    match unaryOp? token.lexeme with
    | none => atom frame room (token :: rest)
    | some op =>
      match room with
      | 0 => .error (.tooDeep frame.limit)
      | room + 1 => do
        let inner ← operand frame room rest
        return (inner.map (.unary op)).widen (by simp)
termination_by 10 * tokens.length + 1

/-- Reads a number, a variable, a call or an expression in parentheses. -/
def atom (frame : Frame) (room : Nat) (tokens : List Token) :
    Except GrammarError (Front tokens Expr) :=
  match tokens with
  | ⟨.number value, _⟩ :: rest => .ok ⟨.number value, rest, by simp⟩
  | ⟨.name name, pos⟩ :: ⟨.symbol .openParen, _⟩ :: rest => do
    let args ← arguments frame pos room rest
    return (args.map (.call name)).widen (by simp; omega)
  | ⟨.name name, _⟩ :: rest => .ok ⟨.var name, rest, by simp⟩
  | ⟨.symbol .openParen, pos⟩ :: rest => do
    let inner ← expression frame room rest
    let closed ← closing frame pos inner.rest
    return ⟨inner.value, closed.rest, by
      have := inner.shorter; have := closed.shorter
      simp; omega⟩
  | other => .error (frame.unexpected .operand other)
termination_by 10 * tokens.length
decreasing_by all_goals simp; try omega

/-- Reads the arguments of the call at `pos` and its closing parenthesis. -/
def arguments (frame : Frame) (pos room : Nat) (tokens : List Token) :
    Except GrammarError (Front tokens (List Expr)) :=
  match tokens with
  | ⟨.symbol .closeParen, _⟩ :: rest => .ok ⟨[], rest, by simp⟩
  | first => argumentsFrom frame pos room first
termination_by 10 * tokens.length + 11

/-- Reads arguments up to the closing parenthesis; the first one is due. -/
def argumentsFrom (frame : Frame) (pos room : Nat) (tokens : List Token) :
    Except GrammarError (Front tokens (List Expr)) := do
  let arg ← expression frame room tokens
  match h : arg.rest with
  | ⟨.symbol .comma, _⟩ :: rest =>
    let others ← argumentsFrom frame pos room rest
    return ⟨arg.value :: others.value, others.rest, by
      have := arg.shorter; have := others.shorter
      simp [h] at *; omega⟩
  | afterArg =>
    let closed ← closing frame pos afterArg
    return ⟨[arg.value], closed.rest, by
      have := arg.shorter; have := closed.shorter
      simp [h] at *; omega⟩
termination_by 10 * tokens.length + 10
decreasing_by
  · omega
  · have := arg.shorter
    simp [h] at *
    omega

end

/-- Just behind the first character of the last token. -/
def endOf (tokens : List Token) : Nat :=
  match tokens.getLast? with
  | some token => token.pos + 1
  | none => 0

/-- Reads a whole row of tokens as one expression nested at most `limit` deep. -/
def parse (limit : Nat) (tokens : List Token) : Except GrammarError Expr :=
  if tokens.isEmpty then .error .empty
  else do
    let frame : Frame := ⟨endOf tokens, limit⟩
    let tree ← expression frame limit tokens
    match tree.rest with
    | [] => return tree.value
    | ⟨.symbol .closeParen, pos⟩ :: _ => .error (.unbalanced pos)
    | rest => .error (frame.unexpected .operatorOrEnd rest)

end Expr
end Formula
end GuildRating
