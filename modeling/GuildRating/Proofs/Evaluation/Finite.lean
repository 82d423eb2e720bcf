/-
# Ratings are finite

Numbers in a formula, the ratings and the weights may be anything, infinities and NaN included; a
rating is always finite.  Not every step of an evaluation looks at its result, so finiteness is
carried as an invariant: what is applied is applied to finite values only, and a negation or a truth
value made of finite values is finite (`finitely_evalLogged`).  The other algorithms look at their
result once, at the end (`isFinite_builtIn`).
-/

import Mathlib.Control.Monad.Basic
import GuildRating.Proofs.Cache.Lookups
import GuildRating.Proofs.Evaluation.Logged

namespace GuildRating
namespace Formula

/-- The negative of a finite value is finite. -/
theorem isFinite_neg {x : Double} (h : x.isFinite = true) : (-x).isFinite = true := by
  cases x with
  | nan => exact h
  | infinity negative => exact h
  | finite negative units fits => rfl

/-- A truth value is finite. -/
theorem isFinite_truth (holds : Bool) : (truth holds).isFinite = true := by
  cases holds with
  | true => decide +kernel
  | false => rfl

/-- What passes the test for finite values is finite. -/
theorem isFinite_of_checked {op : String} {value result : Double} {operands : List Double}
    (h : checked op value operands = .ok result) : result.isFinite = true := by
  cases value with
  | nan => cases h
  | infinity negative => cases h
  | finite negative units fits =>
    cases h
    rfl

/-- What is finite is let through. -/
theorem checked_of_isFinite {value : Double} (h : value.isFinite = true) (op : String)
    (operands : List Double) : checked op value operands = .ok value := by
  cases value with
  | nan => cases h
  | infinity negative => cases h
  | finite negative units fits => rfl

/-- A unary operator, which is not tested, keeps finite values finite. -/
theorem UnaryOp.isFinite_apply (op : UnaryOp) {x : Double} (h : x.isFinite = true) :
    (op.apply x).isFinite = true := by
  cases op with
  | neg => exact isFinite_neg h
  | not => exact isFinite_truth x.isZero

/-- What the left operand settles is zero or one. -/
theorem BinaryOp.isFinite_of_settled {op : BinaryOp} {x value : Double}
    (h : op.settled? x = some value) : value.isFinite = true := by
  have one : (1 : Double).isFinite = true := isFinite_truth true
  have zero : (0 : Double).isFinite = true := isFinite_truth false
  unfold settled? at h
  split at h
  · split at h
    · obtain rfl := Option.some.inj h
      exact zero
    · cases h
  · split at h
    · cases h
    · obtain rfl := Option.some.inj h
      exact one
  · cases h

/-- A binary operator gives finite values only. -/
theorem BinaryOp.isFinite_of_apply {op : BinaryOp} {x y value : Double}
    (h : op.apply x y = .ok value) : value.isFinite = true := by
  have divided {text : String} {quotient : Double}
      (h : (if y.isZero then .error .divisionByZero else checked text quotient [x, y]) =
        Except.ok value) : value.isFinite = true := by
    split at h
    · cases h
    · exact isFinite_of_checked h
  cases op with
  | div => exact divided h
  | rem => exact divided h
  | _ => exact isFinite_of_checked h

namespace Logged

variable {α β : Type} {P : α → Prop} {Q : β → Prop}

/-- All values that something was applied to are finite, and the value in the end is as said. -/
structure Finitely (P : α → Prop) (x : Logged α) : Prop where
  value : ∀ a, x.outcome = .ok a → P a
  operands : ∀ application ∈ x.log, ∀ y ∈ application.operands, y.isFinite = true

/-- An outcome without a log is finite if its value is as said. -/
theorem Finitely.silent {outcome : Except EvalError α} (h : ∀ a, outcome = .ok a → P a) :
    Finitely P (silent outcome) :=
  ⟨h, fun _ happlication => absurd happlication List.not_mem_nil⟩

/-- A step that stops has applied nothing yet. -/
theorem Finitely.stopped {e : EvalError} :
    Finitely P (Logged.silent (.error e)) := by
  refine .silent fun a h => ?_
  cases h

theorem Finitely.pure {a : α} (h : P a) : Finitely P (Pure.pure a : Logged α) := by
  refine .silent fun a' h' => ?_
  rw [← Except.ok.inj h']
  exact h

/-- Applying something to finite values logs those. -/
theorem Finitely.applying {name : String} {operands : List Double} {outcome : Except EvalError α}
    (hoperands : ∀ y ∈ operands, y.isFinite = true) (h : ∀ a, outcome = .ok a → P a) :
    Finitely P (applying name operands outcome) := by
  refine ⟨h, fun application happlication => ?_⟩
  obtain rfl : application = ⟨name, operands⟩ := List.mem_singleton.1 happlication
  exact hoperands

/-- **Joined steps apply finite values only if both of them do.** -/
theorem Finitely.bind {x : Logged α} {f : α → Logged β} (hx : Finitely P x)
    (hf : ∀ a, P a → Finitely Q (f a)) : Finitely Q (x >>= f) := by
  obtain ⟨outcome, log⟩ := x
  cases outcome with
  | error e => exact ⟨nofun, hx.operands⟩
  | ok a =>
    have later := hf a (hx.value a rfl)
    refine ⟨later.value, fun application happlication => ?_⟩
    rcases List.mem_append.1 happlication with before | after
    · exact hx.operands application before
    · exact later.operands application after

end Logged

namespace Expr

open Logged (Finitely)

mutual

/-- **Only finite values pass through an evaluation**, whatever numbers the tree holds and whatever
its variables stand for. -/
theorem finitely_evalLogged (v : Vocabulary) (bindings : Bindings) : (tree : Expr) →
    Finitely (fun x => x.isFinite = true) (tree.evalLogged v bindings)
  | number value => by
    rw [evalLogged]
    exact .silent fun _ h => isFinite_of_checked h
  | var name => by
    rw [evalLogged]
    cases v.findVariable? name with
    | some x => exact .silent fun _ h => isFinite_of_checked h
    | none => exact .stopped
  | unary op operand => by
    rw [evalLogged]
    refine (finitely_evalLogged v bindings operand).bind fun x hx => ?_
    refine .applying (List.forall_mem_singleton.2 hx) fun value hvalue => ?_
    rw [← Except.ok.inj hvalue]
    exact op.isFinite_apply hx
  | binary op left right => by
    rw [evalLogged]
    refine (finitely_evalLogged v bindings left).bind fun x hx => ?_
    cases hsettled : op.settled? x with
    | some value =>
      refine .applying (List.forall_mem_singleton.2 hx) fun value' hvalue => ?_
      rw [← Except.ok.inj hvalue]
      exact BinaryOp.isFinite_of_settled hsettled
    | none =>
      refine (finitely_evalLogged v bindings right).bind fun y hy => ?_
      have both : ∀ z ∈ [x, y], z.isFinite = true :=
        List.forall_mem_cons.2 ⟨hx, List.forall_mem_singleton.2 hy⟩
      exact .applying both fun _ h => BinaryOp.isFinite_of_apply h
  | conditional condition whenTrue whenFalse => by
    rw [evalLogged]
    refine (finitely_evalLogged v bindings condition).bind fun x hx => ?_
    have tested : Finitely (fun _ => True) (Logged.applying "?:" [x] (.ok !x.isZero)) :=
      .applying (List.forall_mem_singleton.2 hx) fun _ _ => trivial
    refine tested.bind fun holds _ => ?_
    cases holds with
    | true => exact finitely_evalLogged v bindings whenTrue
    | false => exact finitely_evalLogged v bindings whenFalse
  | call name args => by
    rw [evalLogged]
    cases v.findFunction? name with
    | none => exact .stopped
    | some f =>
      dsimp only
      split
      · refine (finitely_evalAllLogged v bindings args).bind fun values hvalues => ?_
        cases f.value? values with
        | some value => exact .applying hvalues fun _ h => isFinite_of_checked h
        | none => exact .stopped
      · exact .stopped

/-- The evaluation of arguments applies finite values only, and its values are finite. -/
theorem finitely_evalAllLogged (v : Vocabulary) (bindings : Bindings) : (args : List Expr) →
    Finitely (fun values => ∀ x ∈ values, x.isFinite = true) (evalAllLogged v bindings args)
  | [] => by
    rw [evalAllLogged]
    exact .pure (List.forall_mem_nil _)
  | arg :: rest => by
    rw [evalAllLogged]
    refine (finitely_evalLogged v bindings arg).bind fun x hx => ?_
    refine (finitely_evalAllLogged v bindings rest).bind fun values hvalues => ?_
    exact .pure (List.forall_mem_cons.2 ⟨hx, hvalues⟩)

end

/-- A formula has finite values only. -/
theorem isFinite_of_eval {v : Vocabulary} {bindings : Bindings} {tree : Expr} {value : Double}
    (h : tree.eval v bindings = .ok value) : value.isFinite = true := by
  rw [← outcome_evalLogged] at h
  exact (finitely_evalLogged v bindings tree).value value h

end Expr
end Formula

namespace Rating

variable {config : Config} {player : Player} {rating : Double}

/-- A number is let through as a rating if it is finite, and then as it is. -/
theorem finite_eq_ok_iff {value : Double} :
    finite value = .ok rating ↔ value = rating ∧ rating.isFinite = true := by
  rw [finite]
  split
  · next h =>
    rw [Except.ok.injEq]
    exact (and_iff_left_of_imp fun same => same ▸ h).symm
  · next h =>
    constructor
    · intro same
      cases same
    · rintro ⟨rfl, finite⟩
      exact absurd finite h

/-- A number that is not finite is refused for that, and for nothing else. -/
theorem finite_eq_error_iff {value : Double} {e : Error} :
    finite value = .error e ↔ e = .notFinite ∧ value.isFinite = false := by
  rw [finite]
  split
  · next h => simp [h]
  · next h => simp [h, eq_comm]

/-- A weighted average is finite. -/
theorem isFinite_weightedAverage {weights : PerPlaylist Double} {minGames : PerPlaylist UInt32}
    (h : weightedAverage weights minGames player = .ok rating) : rating.isFinite = true := by
  rw [weightedAverage] at h
  split at h
  · cases h
  · cases h
  · exact (finite_eq_ok_iff.1 h).2

/-- A peak rating is finite. -/
theorem isFinite_peakRating (h : peakRating player = .ok rating) : rating.isFinite = true := by
  unfold peakRating at h
  dsimp only at h
  split at h
  · cases h
  · exact (finite_eq_ok_iff.1 h).2

/-- A blend is finite. -/
theorem isFinite_ascendancy {weights : AscendancyWeights}
    (h : ascendancy weights player = .ok rating) : rating.isFinite = true := by
  rw [ascendancy] at h
  split at h
  · cases h
  · split at h
    · cases h
    · exact (finite_eq_ok_iff.1 h).2

/-- A rating by an algorithm other than a formula is finite. -/
theorem isFinite_builtIn (h : builtIn config player = .ok rating) : rating.isFinite = true := by
  rw [builtIn] at h
  split at h
  · exact isFinite_weightedAverage h
  · exact isFinite_peakRating h
  · exact isFinite_ascendancy h
  · cases h

/-- A rating by a tree is finite. -/
theorem isFinite_ofTree {tree : Except Formula.Error Formula.Expr}
    (h : ofTree tree player = .ok rating) : rating.isFinite = true := by
  obtain ⟨tree, -, heval⟩ := bind_eq_ok.1 (mapError_eq_ok.1 h)
  exact Formula.Expr.isFinite_of_eval (mapError_eq_ok.1 heval)

/-- **A rating is finite.** -/
theorem isFinite_of_rate (h : rate config player = .ok rating) : rating.isFinite = true := by
  by_cases hc : config.algorithm = .custom
  · cases hf : config.formula? with
    | none =>
      rw [rate_missing hc hf] at h
      cases h
    | some source =>
      rw [rate_custom hc hf] at h
      exact isFinite_ofTree h
  · rw [rate_builtIn hc] at h
    exact isFinite_builtIn h

/-- **A rating with a cache is finite, whatever the cache holds.** -/
theorem isFinite_of_rateWith {cache : Formula.Cache}
    (h : (rateWith cache config player).1 = .ok rating) : rating.isFinite = true := by
  by_cases hc : config.algorithm = .custom
  · cases hf : config.formula? with
    | none =>
      rw [rateWith_missing hc hf] at h
      cases h
    | some source =>
      rw [rateWith_custom hc hf] at h
      exact isFinite_ofTree h
  · rw [rateWith_builtIn hc] at h
    exact isFinite_builtIn h

/-- **A rating is finite**, and so is every value on the way to one.  Whatever a configuration holds
and however a player is rated, be it with a cache in any state, a rating that comes out is finite;
and whatever a tree holds, whatever it may refer to and whatever its variables stand for, a value it
evaluates to is finite, and so are all values that operators and functions are applied to on the
way, also when the evaluation stops with an error. -/
theorem ratings_are_finite :
    (∀ config player rating, rate config player = .ok rating → rating.isFinite = true) ∧
    (∀ cache config player rating,
      (rateWith cache config player).1 = .ok rating → rating.isFinite = true) ∧
    (∀ (v : Formula.Vocabulary) (bindings : Formula.Bindings) (tree : Formula.Expr),
      (tree.evalLogged v bindings).outcome = tree.eval v bindings ∧
      (∀ value, tree.eval v bindings = .ok value → value.isFinite = true) ∧
      ∀ application ∈ (tree.evalLogged v bindings).log, ∀ x ∈ application.operands,
        x.isFinite = true) := by
  refine ⟨fun _ _ _ => isFinite_of_rate, fun _ _ _ _ => isFinite_of_rateWith, ?_⟩
  intro v bindings tree
  have hlog := (Formula.Expr.finitely_evalLogged v bindings tree).operands
  exact ⟨Formula.Expr.outcome_evalLogged v bindings tree, fun _ => Formula.Expr.isFinite_of_eval,
    hlog⟩

/-- The tree of `-ones / 0`. -/
def negatedOverZero : Formula.Expr := .binary .div (.unary .neg (.var "ones")) (.number 0)

/-- The sample player's highest peak is a rating, with a cache and without; and `-ones / 0` stops at
the division, after a negation and a division were given finite values. -/
theorem ratings_are_finite_sample :
    rate .byPeak .sample = .ok (.ofNat 1410) ∧ (Double.ofNat 1410).isFinite = true ∧
    (rateWith (.empty .standard) .byPeak .sample).1 = .ok (.ofNat 1410) ∧
    negatedOverZero.eval .full (.ofPlayer .sample) = .error .divisionByZero ∧
    (negatedOverZero.evalLogged .full (.ofPlayer .sample)).log =
      [⟨"-", [.ofNat 1050]⟩, ⟨"/", [-.ofNat 1050, 0]⟩] ∧
    (-Double.ofNat 1050).isFinite = true := by
  have rated : rate .byPeak .sample = .ok (.ofNat 1410) := by decide +kernel
  have cached : (rateWith (.empty .standard) .byPeak .sample).1 = .ok (.ofNat 1410) := by
    decide +kernel
  have stopped : negatedOverZero.eval .full (.ofPlayer .sample) = .error .divisionByZero := by
    decide +kernel
  have log : (negatedOverZero.evalLogged .full (.ofPlayer .sample)).log =
      [⟨"-", [.ofNat 1050]⟩, ⟨"/", [-.ofNat 1050, 0]⟩] := by decide +kernel
  have finite := (ratings_are_finite.2.2 .full (.ofPlayer .sample) negatedOverZero).2.2
  rw [log] at finite
  have divided := (List.forall_mem_cons.1 (List.forall_mem_cons.1 finite).2).1
  have negated := (List.forall_mem_cons.1 divided).1
  exact ⟨rated, ratings_are_finite.1 _ _ _ rated, cached, stopped, log, negated⟩

end Rating
end GuildRating
