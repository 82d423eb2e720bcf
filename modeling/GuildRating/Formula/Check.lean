/-
# Checking a tree against limits and a vocabulary

How long a text, how deep a nesting and how large a tree may be is limited, so that no formula costs
much to read or to evaluate.  Before a formula is evaluated its tree is checked: it must keep within
the limits, use known names only and give every function as many arguments as it takes.  Size comes
first, then depth, then the names from left to right, a call before its arguments; the first fault
found is reported.
-/

import GuildRating.Formula.Expr
import GuildRating.Formula.Vocabulary

namespace GuildRating
namespace Formula

/-- What a formula may cost. -/
structure Limits where
  /-- Characters of the text. -/
  maxLength : Nat
  /-- Levels of nesting while reading, and levels of the finished tree. -/
  maxDepth : Nat
  /-- Nodes of the tree. -/
  maxNodes : Nat
deriving DecidableEq, Repr

/-- The limits that hold unless others are given. -/
def Limits.standard : Limits := ⟨2000, 64, 512⟩

instance : Inhabited Limits := ⟨.standard⟩

/-- Why a tree is refused.  The names that would have been allowed are kept for the message. -/
inductive CheckError where
  | unknownVariable (name : String) (allowed : String)
  | unknownFunction (name : String) (allowed : String)
  | wrongArity (name : String) (arity : Arity) (found : Nat)
  | tooDeep (depth limit : Nat)
  | tooManyNodes (count limit : Nat)
deriving DecidableEq, Repr

/-- The message of an error, with the names or numbers that would have been allowed. -/
def CheckError.message : CheckError → String
  | unknownVariable name allowed =>
    "unknown variable '" ++ name ++ "' (allowed: " ++ allowed ++ ")"
  | unknownFunction name allowed =>
    "unknown function '" ++ name ++ "' (allowed: " ++ allowed ++ ")"
  | wrongArity name arity found =>
    "function '" ++ name ++ "' expects " ++ arity.text ++ " argument(s), got " ++ toString found
  | tooDeep depth limit =>
    "formula is nested too deeply (" ++ toString depth ++ " levels, maximum is " ++
      toString limit ++ ")"
  | tooManyNodes count limit =>
    "formula is too large (" ++ toString count ++ " nodes, maximum is " ++ toString limit ++ ")"

namespace Expr

mutual

/-- Checks the names in a tree. -/
def checkNames (v : Vocabulary) : Expr → Except CheckError Unit
  | number _ => .ok ()
  | var name =>
    match v.findVariable? name with
    | some _ => .ok ()
    | none => .error (.unknownVariable name v.variableNames)
  | unary _ operand => operand.checkNames v
  | binary _ left right => do
    left.checkNames v
    right.checkNames v
  | conditional condition whenTrue whenFalse => do
    condition.checkNames v
    whenTrue.checkNames v
    whenFalse.checkNames v
  | call name args =>
    match v.findFunction? name with
    | none => .error (.unknownFunction name v.functionNames)
    | some f =>
      if f.arity.accepts args.length then checkAllNames v args
      else .error (.wrongArity name f.arity args.length)

/-- Checks the names in the arguments of a call. -/
def checkAllNames (v : Vocabulary) : List Expr → Except CheckError Unit
  | [] => .ok ()
  | arg :: rest => do
    arg.checkNames v
    checkAllNames v rest

end

/-- Checks a tree against limits and a vocabulary. -/
def check (v : Vocabulary) (limits : Limits) (tree : Expr) : Except CheckError Unit :=
  if limits.maxNodes < tree.size then .error (.tooManyNodes tree.size limits.maxNodes)
  else if limits.maxDepth < tree.depth then .error (.tooDeep tree.depth limits.maxDepth)
  else tree.checkNames v

end Expr
end Formula
end GuildRating
