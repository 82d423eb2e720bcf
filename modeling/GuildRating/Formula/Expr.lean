/-
# Expressions

The tree of a formula.  A call keeps its arguments as a list, whose length is what the vocabulary
later checks.  `Expr.render` writes a tree with every operation in parentheses, so that no
precedence is left to know.
-/

import GuildRating.Decimal.Style

namespace GuildRating
namespace Formula

/-- What stands before one operand. -/
inductive UnaryOp where
  | neg
  | not
deriving DecidableEq, Repr

/-- What stands between two operands. -/
inductive BinaryOp where
  | add
  | sub
  | mul
  | div
  | rem
  | less
  | lessEqual
  | greater
  | greaterEqual
  | equal
  | notEqual
  | and
  | or
deriving DecidableEq, Repr

/-- The operator as it is written. -/
def UnaryOp.text : UnaryOp → String
  | neg => "-"
  | not => "!"

/-- The operator as it is written. -/
def BinaryOp.text : BinaryOp → String
  | add => "+"
  | sub => "-"
  | mul => "*"
  | div => "/"
  | rem => "%"
  | less => "<"
  | lessEqual => "<="
  | greater => ">"
  | greaterEqual => ">="
  | equal => "=="
  | notEqual => "!="
  | and => "&&"
  | or => "||"

/-- The tree of a formula. -/
inductive Expr where
  | number (value : Double)
  | var (name : String)
  | unary (op : UnaryOp) (operand : Expr)
  | binary (op : BinaryOp) (left right : Expr)
  | conditional (condition whenTrue whenFalse : Expr)
  | call (name : String) (args : List Expr)

namespace Expr

mutual

/-- Levels of the tree, a leaf being one. -/
def depth : Expr → Nat
  | number _ => 1
  | var _ => 1
  | unary _ operand => 1 + operand.depth
  | binary _ left right => 1 + max left.depth right.depth
  | conditional condition whenTrue whenFalse =>
    1 + max (max condition.depth whenTrue.depth) whenFalse.depth
  | call _ args => 1 + deepest args

/-- The depth of the deepest argument, zero when there is none. -/
def deepest : List Expr → Nat
  | [] => 0
  | arg :: rest => max arg.depth (deepest rest)

end

mutual

/-- Nodes of the tree. -/
def size : Expr → Nat
  | number _ => 1
  | var _ => 1
  | unary _ operand => 1 + operand.size
  | binary _ left right => 1 + (left.size + right.size)
  | conditional condition whenTrue whenFalse =>
    1 + (condition.size + whenTrue.size + whenFalse.size)
  | call _ args => 1 + totalSize args

/-- Nodes of all arguments together. -/
def totalSize : List Expr → Nat
  | [] => 0
  | arg :: rest => arg.size + totalSize rest

end

mutual

/-- The tree as text, with every operation in parentheses. -/
def render : Expr → String
  | number value => value.text
  | var name => name
  | unary op operand => "(" ++ op.text ++ operand.render ++ ")"
  | binary op left right => "(" ++ left.render ++ " " ++ op.text ++ " " ++ right.render ++ ")"
  | conditional condition whenTrue whenFalse =>
    "(" ++ condition.render ++ " ? " ++ whenTrue.render ++ " : " ++ whenFalse.render ++ ")"
  | call name args => name ++ "(" ++ ", ".intercalate (renderAll args) ++ ")"

/-- Writes the arguments of a call. -/
def renderAll : List Expr → List String
  | [] => []
  | arg :: rest => arg.render :: renderAll rest

end

mutual

/-- Whether two trees are equal. -/
def decEq : (a b : Expr) → Decidable (a = b)
  | number x, number y =>
    if h : x = y then isTrue (by rw [h]) else isFalse (by simp [h])
  | var x, var y =>
    if h : x = y then isTrue (by rw [h]) else isFalse (by simp [h])
  | unary op a, unary op' a' =>
    match decEq a a' with
    | isTrue h => if h' : op = op' then isTrue (by rw [h, h']) else isFalse (by simp [h'])
    | isFalse h => isFalse (by simp [h])
  | binary op a b, binary op' a' b' =>
    match decEq a a', decEq b b' with
    | isTrue h, isTrue h' =>
      if h'' : op = op' then isTrue (by rw [h, h', h'']) else isFalse (by simp [h''])
    | isFalse h, _ => isFalse (by simp [h])
    | _, isFalse h => isFalse (by simp [h])
  | conditional a b c, conditional a' b' c' =>
    match decEq a a', decEq b b', decEq c c' with
    | isTrue h, isTrue h', isTrue h'' => isTrue (by rw [h, h', h''])
    | isFalse h, _, _ => isFalse (by simp [h])
    | _, isFalse h, _ => isFalse (by simp [h])
    | _, _, isFalse h => isFalse (by simp [h])
  | call name args, call name' args' =>
    match decEqAll args args' with
    | isTrue h => if h' : name = name' then isTrue (by rw [h, h']) else isFalse (by simp [h'])
    | isFalse h => isFalse (by simp [h])
  | number _, var _ | number _, unary .. | number _, binary .. | number _, conditional ..
  | number _, call .. | var _, number _ | var _, unary .. | var _, binary ..
  | var _, conditional .. | var _, call .. | unary .., number _ | unary .., var _
  | unary .., binary .. | unary .., conditional .. | unary .., call .. | binary .., number _
  | binary .., var _ | binary .., unary .. | binary .., conditional .. | binary .., call ..
  | conditional .., number _ | conditional .., var _ | conditional .., unary ..
  | conditional .., binary .. | conditional .., call .. | call .., number _ | call .., var _
  | call .., unary .. | call .., binary .. | call .., conditional .. => isFalse (by simp)

/-- Whether two lists of trees are equal. -/
def decEqAll : (as bs : List Expr) → Decidable (as = bs)
  | [], [] => isTrue rfl
  | [], _ :: _ | _ :: _, [] => isFalse (by simp)
  | a :: as, b :: bs =>
    match decEq a b, decEqAll as bs with
    | isTrue h, isTrue h' => isTrue (by rw [h, h'])
    | isFalse h, _ => isFalse (by simp [h])
    | _, isFalse h => isFalse (by simp [h])

end

instance : DecidableEq Expr := decEq

end Expr
end Formula
end GuildRating
