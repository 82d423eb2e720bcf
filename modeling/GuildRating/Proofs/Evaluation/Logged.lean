/-
# Evaluation with a log

`Expr.evalLogged` evaluates a tree as `Expr.eval` does and also writes down every operator and every
function that it applies, with the values handed to it, up to the point where the evaluation ends or
stops.  Forgetting the log leaves the evaluation as it is (`outcome_evalLogged`), so what is
proved of the log is said of the values that pass through an evaluation.
-/

import GuildRating.Formula.Eval
import GuildRating.Proofs.Steps

namespace GuildRating
namespace Formula

/-- An operator or a function, and the values it is applied to. -/
structure Application where
  name : String
  operands : List Double
deriving DecidableEq

/-- An evaluation that writes a log: what it comes to, and what it has applied so far. -/
structure Logged (α : Type) where
  outcome : Except EvalError α
  log : List Application

namespace Logged

variable {α β : Type}

/-- An outcome to which nothing had to be applied. -/
def silent (outcome : Except EvalError α) : Logged α := ⟨outcome, []⟩

/-- The outcome of applying something to values. -/
def applying (name : String) (operands : List Double) (outcome : Except EvalError α) : Logged α :=
  ⟨outcome, [⟨name, operands⟩]⟩

/-- Goes on with the value of the first step, if it has one. -/
def bind (x : Logged α) (f : α → Logged β) : Logged β :=
  match x.outcome with
  | .ok a => ⟨(f a).outcome, x.log ++ (f a).log⟩
  | .error e => ⟨.error e, x.log⟩

instance : Monad Logged where
  pure a := silent (.ok a)
  bind := bind

@[simp] theorem outcome_silent (outcome : Except EvalError α) :
    (silent outcome).outcome = outcome := rfl

@[simp] theorem outcome_applying (name : String) (operands : List Double)
    (outcome : Except EvalError α) : (applying name operands outcome).outcome = outcome := rfl

theorem bind_eq (x : Logged α) (f : α → Logged β) : (x >>= f) = x.bind f := rfl

/-- Joined steps come to what they come to without their logs. -/
@[simp] theorem outcome_bind (x : Logged α) (f : α → Logged β) :
    (x >>= f).outcome = x.outcome >>= fun a => (f a).outcome := by
  rw [bind_eq, bind]
  cases x.outcome with
  | error e => rfl
  | ok a => rfl

end Logged

namespace Expr

open Logged (silent applying)

mutual

/-- The value of a tree, with a log of what is applied on the way. -/
def evalLogged (v : Vocabulary) (bindings : Bindings) : Expr → Logged Double
  | number value => silent (checked "literal" value [])
  | var name =>
    match v.findVariable? name with
    | some x => silent (checked name (bindings x) [])
    | none => silent (.error (.unresolved name))
  | unary op operand => do
    let x ← operand.evalLogged v bindings
    applying op.text [x] (.ok (op.apply x))
  | binary op left right => do
    let x ← left.evalLogged v bindings
    match op.settled? x with
    | some value => applying op.text [x] (.ok value)
    | none => do
      let y ← right.evalLogged v bindings
      applying op.text [x, y] (op.apply x y)
  | conditional condition whenTrue whenFalse => do
    let x ← condition.evalLogged v bindings
    let holds ← applying "?:" [x] (.ok !x.isZero)
    if holds then whenTrue.evalLogged v bindings else whenFalse.evalLogged v bindings
  | call name args =>
    match v.findFunction? name with
    | none => silent (.error (.unresolved name))
    | some f =>
      if f.arity.accepts args.length then do
        let values ← evalAllLogged v bindings args
        match f.value? values with
        | some value => applying f.name values (checked f.name value values)
        | none => silent (.error (.unresolved name))
      else silent (.error (.unresolved name))

/-- The values of the arguments from left to right. -/
def evalAllLogged (v : Vocabulary) (bindings : Bindings) : List Expr → Logged (List Double)
  | [] => pure []
  | arg :: rest => do
    let x ← arg.evalLogged v bindings
    let values ← evalAllLogged v bindings rest
    return x :: values

end

mutual

/-- **Forgetting the log leaves the evaluation as it is.** -/
theorem outcome_evalLogged (v : Vocabulary) (bindings : Bindings) : (tree : Expr) →
    (tree.evalLogged v bindings).outcome = tree.eval v bindings
  | number value => by rw [evalLogged, eval, Logged.outcome_silent]
  | var name => by
    rw [evalLogged, eval]
    cases v.findVariable? name with
    | some x => rfl
    | none => rfl
  | unary op operand => by
    rw [evalLogged, eval, Logged.outcome_bind, outcome_evalLogged v bindings operand]
    rfl
  | binary op left right => by
    rw [evalLogged, eval, Logged.outcome_bind, outcome_evalLogged v bindings left]
    refine congrArg (left.eval v bindings >>= ·) (funext fun x => ?_)
    cases op.settled? x with
    | some value => rfl
    | none =>
      dsimp only
      rw [Logged.outcome_bind, outcome_evalLogged v bindings right]
      rfl
  | conditional condition whenTrue whenFalse => by
    rw [evalLogged, eval, Logged.outcome_bind, outcome_evalLogged v bindings condition]
    refine congrArg (condition.eval v bindings >>= ·) (funext fun x => ?_)
    rw [Logged.outcome_bind, Logged.outcome_applying, ok_bind]
    cases x.isZero with
    | true => exact outcome_evalLogged v bindings whenFalse
    | false => exact outcome_evalLogged v bindings whenTrue
  | call name args => by
    rw [evalLogged, eval]
    cases v.findFunction? name with
    | none => rfl
    | some f =>
      dsimp only
      cases f.arity.accepts args.length with
      | false => rfl
      | true =>
        rw [if_pos rfl, if_pos rfl, Logged.outcome_bind, outcome_evalAllLogged v bindings args]
        refine congrArg (evalAll v bindings args >>= ·) (funext fun values => ?_)
        cases f.value? values with
        | some value => rfl
        | none => rfl

/-- Forgetting the log leaves the evaluation of arguments as it is. -/
theorem outcome_evalAllLogged (v : Vocabulary) (bindings : Bindings) : (args : List Expr) →
    (evalAllLogged v bindings args).outcome = evalAll v bindings args
  | [] => rfl
  | arg :: rest => by
    rw [evalAllLogged, evalAll, Logged.outcome_bind, outcome_evalLogged v bindings arg]
    refine congrArg (arg.eval v bindings >>= ·) (funext fun x => ?_)
    rw [Logged.outcome_bind, outcome_evalAllLogged v bindings rest]
    rfl

end

end Expr
end Formula
end GuildRating
