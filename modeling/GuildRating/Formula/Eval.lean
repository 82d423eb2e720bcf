/-
# Evaluating a tree

Numbers are the only values: a comparison or a logical operator gives one or zero, and every value
other than zero counts as true.  `&&`, `||` and the conditional evaluate only the operands they
need.  What is not a number or not finite is an error and never a value.
-/

import GuildRating.Formula.Expr
import GuildRating.Formula.Vocabulary

namespace GuildRating
namespace Formula

/-- Why a tree has no value. -/
inductive EvalError where
  | divisionByZero
  /-- An operation whose result is not a number. -/
  | invalidOperation (op : String) (operands : List Double)
  /-- An operation whose result is infinite. -/
  | nonFinite (op : String)
  /-- A name that is not in the vocabulary, or a call with the wrong number of arguments. -/
  | unresolved (name : String)
deriving DecidableEq

/-- Operands in messages: a whole number keeps one decimal, very small and very large numbers have
an exponent. -/
def operandStyle : NumberStyle := ⟨.upward, fun first => -4 ≤ first && first < 16, ".0", ""⟩

/-- The message of an error, with the operands as they were. -/
def EvalError.message : EvalError → String
  | divisionByZero => "division by zero"
  | invalidOperation op operands =>
    "invalid operation '" ++ op ++ "' on operands [" ++
      ", ".intercalate (operands.map operandStyle.render) ++ "]"
  | nonFinite op => "operation '" ++ op ++ "' produced a non-finite result"
  | unresolved name => "formula was not validated: unresolved identifier '" ++ name ++ "'"

/-- One for true, zero for false. -/
def truth (holds : Bool) : Double := if holds then 1 else 0

/-- Lets a finite result through. -/
def checked (op : String) (value : Double) (operands : List Double) : Except EvalError Double :=
  if value.isNaN then .error (.invalidOperation op operands)
  else if value.isInfinite then .error (.nonFinite op)
  else .ok value

/-- The value of a unary operator. -/
def UnaryOp.apply (op : UnaryOp) (x : Double) : Double :=
  match op with
  | neg => -x
  | not => truth x.isZero

/-- The left operand alone settles the result. -/
def BinaryOp.settled? (op : BinaryOp) (x : Double) : Option Double :=
  match op with
  | and => if x.isZero then some 0 else none
  | or => if x.isZero then none else some 1
  | _ => none

/-- The value of a binary operator whose right operand is needed. -/
def BinaryOp.apply (op : BinaryOp) (x y : Double) : Except EvalError Double :=
  match op with
  | add => checked op.text (x + y) [x, y]
  | sub => checked op.text (x - y) [x, y]
  | mul => checked op.text (x * y) [x, y]
  | div => if y.isZero then .error .divisionByZero else checked op.text (x / y) [x, y]
  | rem => if y.isZero then .error .divisionByZero else checked op.text (x % y) [x, y]
  | less => checked op.text (truth (x.less y)) [x, y]
  | lessEqual => checked op.text (truth (x.lessEq y)) [x, y]
  | greater => checked op.text (truth (y.less x)) [x, y]
  | greaterEqual => checked op.text (truth (y.lessEq x)) [x, y]
  | equal => checked op.text (truth (x.equal y)) [x, y]
  | notEqual => checked op.text (truth (!x.equal y)) [x, y]
  | and | or => checked op.text (truth (!y.isZero)) [x, y]

namespace Expr

mutual

/-- The value of a tree. -/
def eval (v : Vocabulary) (bindings : Bindings) : Expr → Except EvalError Double
  | number value => checked "literal" value []
  | var name =>
    match v.findVariable? name with
    | some x => checked name (bindings x) []
    | none => .error (.unresolved name)
  | unary op operand => do
    let x ← operand.eval v bindings
    return op.apply x
  | binary op left right => do
    let x ← left.eval v bindings
    match op.settled? x with
    | some value => return value
    | none =>
      let y ← right.eval v bindings
      op.apply x y
  | conditional condition whenTrue whenFalse => do
    let x ← condition.eval v bindings
    if x.isZero then whenFalse.eval v bindings else whenTrue.eval v bindings
  | call name args =>
    match v.findFunction? name with
    | none => .error (.unresolved name)
    | some f =>
      if f.arity.accepts args.length then do
        let values ← evalAll v bindings args
        match f.value? values with
        | some value => checked f.name value values
        | none => .error (.unresolved name)
      else .error (.unresolved name)

/-- The values of the arguments from left to right. -/
def evalAll (v : Vocabulary) (bindings : Bindings) : List Expr → Except EvalError (List Double)
  | [] => .ok []
  | arg :: rest => do
    let x ← arg.eval v bindings
    let values ← evalAll v bindings rest
    return x :: values

end

end Expr
end Formula
end GuildRating
