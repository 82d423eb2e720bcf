/-
# Formulas

A formula is a text that could be scanned, read and checked, together with its tree.  It keeps
its source as it was given and, beside it, the source with its blanks collapsed: the form in which
formulas are stored and compared.
-/

import GuildRating.Formula.Check
import GuildRating.Formula.Eval
import GuildRating.Formula.Expr.Parser
import GuildRating.Formula.Token.Lexer

namespace GuildRating

/-- A compiled formula: the text it came from, the text with single spaces, and its tree. -/
structure Formula where
  source : String
  normalized : String
  tree : Formula.Expr
deriving DecidableEq

namespace Formula

/-- Why a text is no formula, or a formula has no value. -/
inductive Error where
  | scan (error : ScanError)
  | grammar (error : GrammarError)
  | check (error : CheckError)
  | eval (error : EvalError)
deriving DecidableEq

/-- The message of whatever stage refused the formula. -/
def Error.message : Error → String
  | scan e => e.message
  | grammar e => e.message
  | check e => e.message
  | eval e => e.message

/-- The tree of a text, not yet checked. -/
def read (limits : Limits) (source : String) : Except Error Expr := do
  let tokens ← (scan limits.maxLength source).mapError Error.scan
  (Expr.parse limits.maxDepth tokens).mapError Error.grammar

/-- The formula of a text. -/
def compile (limits : Limits) (source : String) : Except Error Formula := do
  let tree ← read limits source
  (tree.check .full limits).mapError Error.check
  return ⟨source, Text.collapse source, tree⟩

/-- The value of a formula for a player. -/
def evaluate (formula : Formula) (player : Player) : Except Error Double :=
  (formula.tree.eval .full (.ofPlayer player)).mapError Error.eval

end Formula
end GuildRating
