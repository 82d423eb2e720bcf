/-
# What the check promises the evaluation

A tree whose nodes the vocabulary resolves is evaluated to a value or to an arithmetic error: the
evaluation never stops at a name, nor at a call with the wrong number of arguments
(`settled_eval`).  A function is given as many values as it was called with arguments, and its
arity asks for all those that it reads (`reads_le_of_accepts`), so no call reaches past the end of
its values.  Together with the first fault of a tree this says what the check of a tree decides, and
what it is good for (`check_decides_evaluation`).
-/

import GuildRating.Formula.Eval
import GuildRating.Proofs.Check.Faults

namespace GuildRating
namespace Formula

/-- The evaluation does not stop at a name or at a number of arguments. -/
def Settled {α : Type} (x : Except EvalError α) : Prop := ∀ name, x ≠ .error (.unresolved name)

namespace Settled

variable {α β : Type}

theorem ok (a : α) : Settled (.ok a) := nofun

/-- Joined steps do not stop at a name if neither of them does. -/
theorem bind {x : Except EvalError α} {f : α → Except EvalError β} (hx : Settled x)
    (hf : ∀ a, x = .ok a → Settled (f a)) : Settled (x >>= f) := by
  intro name h
  cases x with
  | error e =>
    rw [error_bind] at h
    exact hx name (by rw [Except.error.inj h])
  | ok a => exact hf a rfl name h

end Settled

/-- A test for finite values stops for their sake only. -/
theorem settled_checked (op : String) (value : Double) (operands : List Double) :
    Settled (checked op value operands) := by
  intro name h
  unfold checked at h
  split at h
  · cases h
  · split at h <;> cases h

/-- An operation stops for the sake of its operands only. -/
theorem BinaryOp.settled_apply (op : BinaryOp) (x y : Double) : Settled (op.apply x y) := by
  have divided (text : String) (value : Double) (operands : List Double) : Settled
      (if y.isZero then .error .divisionByZero else checked text value operands) := by
    split
    · exact nofun
    · exact settled_checked _ _ _
  cases op with
  | div | rem => exact divided _ _ _
  | _ => exact settled_checked _ _ _

namespace Function

/-- How many of its values a function reads by their place; a largest or a smallest value is looked
for among all there are. -/
def reads : Function → Nat
  | max | min => 0
  | pow => 2
  | abs | sqrt | floor | ceil | round => 1

/-- A function that is given as many arguments as it accepts reads no further than they go. -/
theorem reads_le_of_accepts (f : Function) {count : Nat} (h : f.arity.accepts count = true) :
    f.reads ≤ count := by
  cases f with
  | max | min => exact Nat.zero_le count
  | pow | abs | sqrt | floor | ceil | round => exact Nat.le_of_eq (of_decide_eq_true h).symm

/-- With as many values as its arity asks for, a function has a value. -/
theorem exists_value?_eq {f : Function} {values : List Double}
    (h : f.arity.accepts values.length = true) : ∃ value, f.value? values = some value := by
  rw [← isSome_value?] at h
  exact Option.isSome_iff_exists.1 h

end Function

namespace Expr

variable {v : Vocabulary} {bindings : Bindings}

/-- There are as many values as arguments. -/
theorem length_of_evalAll : ∀ {args : List Expr} {values : List Double},
    evalAll v bindings args = .ok values → values.length = args.length
  | [], _, h => by
    cases h
    rfl
  | arg :: rest, _, h => by
    rw [evalAll] at h
    obtain ⟨x, -, h⟩ := bind_eq_ok.1 h
    obtain ⟨values, hvalues, h⟩ := bind_eq_ok.1 h
    cases h
    rw [List.length_cons, List.length_cons, length_of_evalAll hvalues]

/-- A resolved call has as many arguments as its function takes. -/
theorem accepts_of_resolves {name : String} {args : List Expr} {f : Function}
    (hcall : v.Resolves (.call name args)) (hname : v.findFunction? name = some f) :
    f.arity.accepts args.length = true := by
  obtain ⟨g, hg, hcalled, haccepts⟩ := hcall
  obtain rfl : f = g :=
    Option.some.inj (hname.symm.trans (Vocabulary.findFunction?_eq_some_iff.2 ⟨hg, hcalled⟩))
  exact haccepts

/-- The values of the arguments are all that the function needs. -/
theorem value?_of_accepts {args : List Expr} {f : Function} {values : List Double}
    (haccepts : f.arity.accepts args.length = true)
    (hvalues : evalAll v bindings args = .ok values) :
    f.reads ≤ values.length ∧ ∃ value, f.value? values = some value := by
  rw [← length_of_evalAll hvalues] at haccepts
  exact ⟨f.reads_le_of_accepts haccepts, Function.exists_value?_eq haccepts⟩

mutual

/-- **A tree of resolved nodes is evaluated without a fault of its names.** -/
theorem settled_eval : (tree : Expr) → (∀ node ∈ tree.nodes, v.Resolves node) →
    Settled (tree.eval v bindings)
  | number _, _ => settled_checked _ _ _
  | var name, h => by
    obtain ⟨x, hx⟩ := h (.var name) List.mem_cons_self
    rw [eval, Vocabulary.findVariable?_eq_some_iff.2 hx]
    exact settled_checked _ _ _
  | unary op operand, h => by
    rw [nodes, List.forall_mem_cons] at h
    rw [eval]
    exact (settled_eval operand h.2).bind fun x _ => .ok _
  | binary op left right, h => by
    rw [nodes, List.forall_mem_cons, List.forall_mem_append] at h
    rw [eval]
    refine (settled_eval left h.2.1).bind fun x _ => ?_
    cases op.settled? x with
    | some value => exact .ok value
    | none => exact (settled_eval right h.2.2).bind fun y _ => op.settled_apply x y
  | conditional condition whenTrue whenFalse, h => by
    rw [nodes, List.forall_mem_cons, List.forall_mem_append, List.forall_mem_append] at h
    rw [eval]
    refine (settled_eval condition h.2.1).bind fun x _ => ?_
    split
    · exact settled_eval whenFalse h.2.2.2
    · exact settled_eval whenTrue h.2.2.1
  | call name args, h => by
    rw [nodes, List.forall_mem_cons] at h
    obtain ⟨hcall, hargs⟩ := h
    obtain ⟨f, hf, hcalled, haccepts⟩ := hcall
    rw [eval, Vocabulary.findFunction?_eq_some_iff.2 ⟨hf, hcalled⟩]
    dsimp only
    rw [if_pos haccepts]
    refine (settled_evalAll args hargs).bind fun values hvalues => ?_
    obtain ⟨-, value, hvalue⟩ := value?_of_accepts haccepts hvalues
    rw [hvalue]
    exact settled_checked _ _ _

/-- Arguments whose names are all resolved are evaluated to values or to an arithmetic error. -/
theorem settled_evalAll : (args : List Expr) → (∀ node ∈ allNodes args, v.Resolves node) →
    Settled (evalAll v bindings args)
  | [], _ => .ok []
  | arg :: rest, h => by
    rw [allNodes, List.forall_mem_append] at h
    rw [evalAll]
    refine (settled_eval arg h.1).bind fun x _ => ?_
    exact (settled_evalAll rest h.2).bind fun values _ => .ok _

end

variable {limits : Limits} {tree : Expr}

/-- Within the limits, the check is that of the names. -/
theorem check_of_le (hnodes : tree.nodes.length ≤ limits.maxNodes)
    (hdepth : tree.depth ≤ limits.maxDepth) : tree.check v limits = tree.checkNames v := by
  rw [length_nodes] at hnodes
  rw [check, if_neg (Nat.not_lt.2 hnodes), if_neg (Nat.not_lt.2 hdepth)]

/-- A tree is accepted if it is small and flat enough and every node is resolved. -/
theorem check_eq_ok_iff : tree.check v limits = .ok () ↔
    tree.nodes.length ≤ limits.maxNodes ∧ tree.depth ≤ limits.maxDepth ∧
      ∀ node ∈ tree.nodes, v.Resolves node := by
  constructor
  · intro h
    rw [check, ← length_nodes] at h
    split at h
    · cases h
    · next hnodes =>
      split at h
      · cases h
      · next hdepth =>
        exact ⟨Nat.not_lt.1 hnodes, Nat.not_lt.1 hdepth, checkNames_eq_ok_iff.1 h⟩
  · rintro ⟨hnodes, hdepth, hresolved⟩
    rw [check_of_le hnodes hdepth]
    exact checkNames_eq_ok_iff.2 hresolved

/-- **The check decides what the evaluation relies on.**  A tree is accepted exactly when it keeps
within the limits and every node of it is resolved: each variable is known, and each call names a
known function, with or without `Math.`, that accepts as many arguments.  When only the names are at
fault, the error is that of the first faulty node in pre-order.  And an accepted tree is evaluated,
whatever the variables stand for, without a fault of its names, every function being given all the
values that it reads. -/
theorem check_decides_evaluation (v : Vocabulary) (limits : Limits) (tree : Expr) :
    (tree.check v limits = .ok () ↔
      tree.nodes.length ≤ limits.maxNodes ∧ tree.depth ≤ limits.maxDepth ∧
        ∀ node ∈ tree.nodes, v.Resolves node) ∧
    (tree.nodes.length ≤ limits.maxNodes → tree.depth ≤ limits.maxDepth →
      ∀ e, tree.check v limits = .error e ↔
        ∃ before node after, tree.nodes = before ++ node :: after ∧
          (∀ earlier ∈ before, v.Resolves earlier) ∧ v.Fault node e) ∧
    (tree.check v limits = .ok () → ∀ bindings : Bindings,
      (∀ name, tree.eval v bindings ≠ .error (.unresolved name)) ∧
      ∀ name args, .call name args ∈ tree.nodes → ∀ f, v.findFunction? name = some f →
        f.arity.accepts args.length = true ∧
        ∀ values, evalAll v bindings args = .ok values →
          f.reads ≤ values.length ∧ ∃ value, f.value? values = some value) := by
  refine ⟨check_eq_ok_iff, ?_, ?_⟩
  · intro hnodes hdepth e
    rw [check_of_le hnodes hdepth]
    exact checkNames_eq_error_iff
  · intro h bindings
    obtain ⟨-, -, hresolved⟩ := check_eq_ok_iff.1 h
    refine ⟨settled_eval tree hresolved, fun name args hcall f hname => ?_⟩
    have haccepts := accepts_of_resolves (hresolved _ hcall) hname
    exact ⟨haccepts, fun values hvalues => value?_of_accepts haccepts hvalues⟩

/-- One variable and one function. -/
def onesAndMax : Vocabulary := ⟨[.rating .ones], [.max]⟩

/-- With one variable and one function known: `Math.max(ones, 1)` is accepted, hence it never stops
at a name; in `Math.max(twos) + threes` the call is the first fault, before the two variables. -/
theorem check_decides_evaluation_onesAndMax :
    (∀ bindings name,
      (Expr.call "Math.max" [.var "ones", .number 1]).eval onesAndMax bindings ≠
        .error (.unresolved name)) ∧
    (Expr.binary .add (.call "Math.max" [.var "twos"]) (.var "threes")).check onesAndMax .standard =
      .error (.wrongArity "Math.max" (.atLeast 2) 1) := by
  have accepted : (Expr.call "Math.max" [.var "ones", .number 1]).check onesAndMax .standard =
      .ok () := by cbv
  have known : Function.max.IsCalled "Math.max" := by decide
  constructor
  · intro bindings
    exact ((check_decides_evaluation _ _ _).2.2 accepted bindings).1
  · refine ((check_decides_evaluation _ _ _).2.1 (by decide) (by decide) _).2 ?_
    refine ⟨[.binary .add (.call "Math.max" [.var "twos"]) (.var "threes")], _,
      [.var "twos", .var "threes"], rfl, ?_, .wrongArity List.mem_cons_self known rfl⟩
    intro earlier h
    obtain rfl := List.mem_singleton.1 h
    trivial

end Expr
end Formula
end GuildRating
