/-
# Short-circuiting against strict evaluation

`Expr.evalStrict` is the plain way to evaluate a tree: all operands of a node from left to right,
then the node, whether the operands are needed or not.  Where it comes to a value, the evaluation
comes to the same value (`eval_of_evalStrict`), so leaving out an operand changes no value and only
avoids errors.  It comes to a value exactly when all nodes of the tree do
(`exists_evalStrict_iff`).
-/

import GuildRating.Proofs.Evaluation.Unneeded

namespace GuildRating
namespace Formula

/-- The value of a binary operator both of whose operands have been evaluated. -/
def BinaryOp.combine (op : BinaryOp) (x y : Double) : Except EvalError Double :=
  match op with
  | and => .ok (truth (!x.isZero && !y.isZero))
  | or => .ok (truth (!x.isZero || !y.isZero))
  | _ => op.apply x y

/-- The value of a call whose arguments have been evaluated.  A function has a value exactly when
its arity accepts as many arguments. -/
def Vocabulary.applied (v : Vocabulary) (name : String) (values : List Double) :
    Except EvalError Double :=
  match v.findFunction? name with
  | none => .error (.unresolved name)
  | some f =>
    match f.value? values with
    | some value => checked f.name value values
    | none => .error (.unresolved name)

namespace Expr

mutual

/-- The value of a tree, all operands of a node being evaluated before the node. -/
def evalStrict (v : Vocabulary) (bindings : Bindings) : Expr → Except EvalError Double
  | number value => checked "literal" value []
  | var name =>
    match v.findVariable? name with
    | some x => checked name (bindings x) []
    | none => .error (.unresolved name)
  | unary op operand => do
    let x ← operand.evalStrict v bindings
    return op.apply x
  | binary op left right => do
    let x ← left.evalStrict v bindings
    let y ← right.evalStrict v bindings
    op.combine x y
  | conditional condition whenTrue whenFalse => do
    let x ← condition.evalStrict v bindings
    let y ← whenTrue.evalStrict v bindings
    let z ← whenFalse.evalStrict v bindings
    return if x.isZero then z else y
  | call name args => do
    let values ← evalAllStrict v bindings args
    v.applied name values

/-- The values of the arguments from left to right. -/
def evalAllStrict (v : Vocabulary) (bindings : Bindings) :
    List Expr → Except EvalError (List Double)
  | [] => .ok []
  | arg :: rest => do
    let x ← arg.evalStrict v bindings
    let values ← evalAllStrict v bindings rest
    return x :: values

end

end Expr

variable {v : Vocabulary} {bindings : Bindings}

/-! ### Operators and calls -/

/-- A settled operator has its value whatever the right operand is. -/
theorem BinaryOp.combine_of_settled {op : BinaryOp} {x value : Double}
    (h : op.settled? x = some value) (y : Double) : op.combine x y = .ok value := by
  cases op with
  | and =>
    rw [settled?] at h
    split at h
    · next hx =>
      obtain rfl := Option.some.inj h
      rw [combine, hx]
      rfl
    · cases h
  | or =>
    rw [settled?] at h
    split at h
    · cases h
    · next hx =>
      obtain rfl := Option.some.inj h
      rw [combine, eq_false_of_ne_true hx]
      rfl
  | _ => cases h

/-- Where both operands are needed, the two ways are one. -/
theorem BinaryOp.combine_of_unsettled {op : BinaryOp} {x : Double} (h : op.settled? x = none)
    (y : Double) : op.combine x y = op.apply x y := by
  cases op with
  | and =>
    rw [settled?] at h
    split at h
    · cases h
    · next hx =>
      rw [combine, apply, eq_false_of_ne_true hx, checked_of_isFinite (isFinite_truth _)]
      rfl
  | or =>
    rw [settled?] at h
    split at h
    · next hx =>
      rw [combine, apply, hx, checked_of_isFinite (isFinite_truth _)]
      rfl
    · cases h
  | _ => rfl

namespace Expr

/-- A call whose arguments come to values is the function applied to them. -/
theorem eval_call_eq_applied {name : String} {args : List Expr} {values : List Double}
    (hvalues : evalAll v bindings args = .ok values) :
    (call name args).eval v bindings = v.applied name values := by
  rw [Vocabulary.applied]
  cases hname : v.findFunction? name with
  | none => rw [eval, hname]
  | some f =>
    dsimp only
    cases hvalue : f.value? values with
    | some value => exact eval_call hname hvalues hvalue
    | none =>
      have refused : f.arity.accepts args.length = false := by
        rw [← length_of_evalAll hvalues, ← Function.isSome_value?, hvalue]
        rfl
      rw [eval, hname]
      dsimp only
      rw [refused]
      rfl

/-! ### A strict value is the value -/

mutual

/-- **Where the strict evaluation has a value, the evaluation has the same.** -/
theorem eval_of_evalStrict : (tree : Expr) → {value : Double} →
    tree.evalStrict v bindings = .ok value → tree.eval v bindings = .ok value
  | number _, _, h => h
  | var _, _, h => h
  | unary op operand, _, h => by
    rw [evalStrict] at h
    obtain ⟨x, hx, h⟩ := bind_eq_ok.1 h
    rw [eval, eval_of_evalStrict operand hx]
    exact h
  | binary op left right, _, h => by
    rw [evalStrict] at h
    obtain ⟨x, hx, h⟩ := bind_eq_ok.1 h
    obtain ⟨y, hy, h⟩ := bind_eq_ok.1 h
    have hleft := eval_of_evalStrict left hx
    cases hsettled : op.settled? x with
    | some value =>
      rw [BinaryOp.combine_of_settled hsettled] at h
      rw [eval_settled hleft hsettled, eval,
        checked_of_isFinite (BinaryOp.isFinite_of_settled hsettled)]
      exact h
    | none =>
      rw [BinaryOp.combine_of_unsettled hsettled] at h
      rw [eval_binary hsettled hleft (eval_of_evalStrict right hy)]
      exact h
  | conditional condition whenTrue whenFalse, _, h => by
    rw [evalStrict] at h
    obtain ⟨x, hx, h⟩ := bind_eq_ok.1 h
    obtain ⟨y, hy, h⟩ := bind_eq_ok.1 h
    obtain ⟨z, hz, h⟩ := bind_eq_ok.1 h
    rw [eval_conditional (eval_of_evalStrict condition hx)]
    split at h
    · next hzero =>
      rw [if_pos hzero, eval_of_evalStrict whenFalse hz]
      exact h
    · next hzero =>
      rw [if_neg hzero, eval_of_evalStrict whenTrue hy]
      exact h
  | call name args, _, h => by
    rw [evalStrict] at h
    obtain ⟨values, hvalues, h⟩ := bind_eq_ok.1 h
    exact (eval_call_eq_applied (evalAll_of_evalAllStrict args hvalues)).trans h

/-- Where the strict evaluation of arguments comes to values, the evaluation comes to the same. -/
theorem evalAll_of_evalAllStrict : (args : List Expr) → {values : List Double} →
    evalAllStrict v bindings args = .ok values → evalAll v bindings args = .ok values
  | [], _, h => h
  | arg :: rest, _, h => by
    rw [evalAllStrict] at h
    obtain ⟨x, hx, h⟩ := bind_eq_ok.1 h
    obtain ⟨values, hvalues, h⟩ := bind_eq_ok.1 h
    rw [evalAll_cons (eval_of_evalStrict arg hx) (evalAll_of_evalAllStrict rest hvalues)]
    exact h

end

/-! ### When there is a strict value -/

/-- The node comes to a value. -/
def Valued (v : Vocabulary) (bindings : Bindings) (node : Expr) : Prop :=
  ∃ value, node.eval v bindings = .ok value

mutual

/-- A strict value takes a value of every node. -/
theorem valued_of_evalStrict : (tree : Expr) → {value : Double} →
    tree.evalStrict v bindings = .ok value → ∀ node ∈ tree.nodes, Valued v bindings node
  | number value, _, h => by
    rw [nodes, List.forall_mem_singleton]
    exact ⟨_, eval_of_evalStrict (number value) h⟩
  | var name, _, h => by
    rw [nodes, List.forall_mem_singleton]
    exact ⟨_, eval_of_evalStrict (var name) h⟩
  | unary op operand, _, h => by
    rw [nodes, List.forall_mem_cons]
    refine ⟨⟨_, eval_of_evalStrict (unary op operand) h⟩, ?_⟩
    rw [evalStrict] at h
    obtain ⟨x, hx, -⟩ := bind_eq_ok.1 h
    exact valued_of_evalStrict operand hx
  | binary op left right, _, h => by
    rw [nodes, List.forall_mem_cons, List.forall_mem_append]
    refine ⟨⟨_, eval_of_evalStrict (binary op left right) h⟩, ?_⟩
    rw [evalStrict] at h
    obtain ⟨x, hx, h⟩ := bind_eq_ok.1 h
    obtain ⟨y, hy, -⟩ := bind_eq_ok.1 h
    exact ⟨valued_of_evalStrict left hx, valued_of_evalStrict right hy⟩
  | conditional condition whenTrue whenFalse, _, h => by
    rw [nodes, List.forall_mem_cons, List.forall_mem_append, List.forall_mem_append]
    refine ⟨⟨_, eval_of_evalStrict (conditional condition whenTrue whenFalse) h⟩, ?_⟩
    rw [evalStrict] at h
    obtain ⟨x, hx, h⟩ := bind_eq_ok.1 h
    obtain ⟨y, hy, h⟩ := bind_eq_ok.1 h
    obtain ⟨z, hz, -⟩ := bind_eq_ok.1 h
    exact ⟨valued_of_evalStrict condition hx, valued_of_evalStrict whenTrue hy,
      valued_of_evalStrict whenFalse hz⟩
  | call name args, _, h => by
    rw [nodes, List.forall_mem_cons]
    refine ⟨⟨_, eval_of_evalStrict (call name args) h⟩, ?_⟩
    rw [evalStrict] at h
    obtain ⟨values, hvalues, -⟩ := bind_eq_ok.1 h
    exact valued_of_evalAllStrict args hvalues

/-- Where the strict evaluation of arguments comes to values, so do all nodes. -/
theorem valued_of_evalAllStrict : (args : List Expr) → {values : List Double} →
    evalAllStrict v bindings args = .ok values → ∀ node ∈ allNodes args, Valued v bindings node
  | [], _, _ => List.forall_mem_nil _
  | arg :: rest, _, h => by
    rw [allNodes, List.forall_mem_append]
    rw [evalAllStrict] at h
    obtain ⟨x, hx, h⟩ := bind_eq_ok.1 h
    obtain ⟨values, hvalues, -⟩ := bind_eq_ok.1 h
    exact ⟨valued_of_evalStrict arg hx, valued_of_evalAllStrict rest hvalues⟩

end

mutual

/-- Nothing else is needed for a strict value. -/
theorem exists_evalStrict : (tree : Expr) → (∀ node ∈ tree.nodes, Valued v bindings node) →
    ∃ value, tree.evalStrict v bindings = .ok value
  | number _, h | var _, h => h _ List.mem_cons_self
  | unary op operand, h => by
    rw [nodes, List.forall_mem_cons] at h
    obtain ⟨x, hx⟩ := exists_evalStrict operand h.2
    rw [evalStrict, hx]
    exact ⟨_, rfl⟩
  | binary op left right, h => by
    rw [nodes, List.forall_mem_cons, List.forall_mem_append] at h
    obtain ⟨x, hx⟩ := exists_evalStrict left h.2.1
    obtain ⟨y, hy⟩ := exists_evalStrict right h.2.2
    rw [evalStrict, hx, ok_bind, hy, ok_bind]
    cases hsettled : op.settled? x with
    | some value => exact ⟨value, BinaryOp.combine_of_settled hsettled y⟩
    | none =>
      -- The strict values of the operands are their values, so the node says what is applied.
      obtain ⟨value, hvalue⟩ := h.1
      rw [eval_binary hsettled (eval_of_evalStrict left hx) (eval_of_evalStrict right hy)] at hvalue
      exact ⟨value, (BinaryOp.combine_of_unsettled hsettled y).trans hvalue⟩
  | conditional condition whenTrue whenFalse, h => by
    rw [nodes, List.forall_mem_cons, List.forall_mem_append, List.forall_mem_append] at h
    obtain ⟨x, hx⟩ := exists_evalStrict condition h.2.1
    obtain ⟨y, hy⟩ := exists_evalStrict whenTrue h.2.2.1
    obtain ⟨z, hz⟩ := exists_evalStrict whenFalse h.2.2.2
    rw [evalStrict, hx, ok_bind, hy, ok_bind, hz]
    exact ⟨_, rfl⟩
  | call name args, h => by
    rw [nodes, List.forall_mem_cons] at h
    obtain ⟨values, hvalues⟩ := exists_evalAllStrict args h.2
    obtain ⟨value, hvalue⟩ := h.1
    rw [evalStrict, hvalues, ok_bind]
    rw [eval_call_eq_applied (evalAll_of_evalAllStrict args hvalues)] at hvalue
    exact ⟨value, hvalue⟩

/-- Where all nodes of arguments come to values, so does their strict evaluation. -/
theorem exists_evalAllStrict : (args : List Expr) →
    (∀ node ∈ allNodes args, Valued v bindings node) →
    ∃ values, evalAllStrict v bindings args = .ok values
  | [], _ => ⟨[], rfl⟩
  | arg :: rest, h => by
    rw [allNodes, List.forall_mem_append] at h
    obtain ⟨x, hx⟩ := exists_evalStrict arg h.1
    obtain ⟨values, hvalues⟩ := exists_evalAllStrict rest h.2
    rw [evalAllStrict, hx, ok_bind, hvalues]
    exact ⟨_, rfl⟩

end

/-- **Strictly there is a value exactly when all nodes have one.** -/
theorem exists_evalStrict_iff {tree : Expr} : (∃ value, tree.evalStrict v bindings = .ok value) ↔
    ∀ node ∈ tree.nodes, Valued v bindings node := by
  constructor
  · rintro ⟨value, h⟩
    exact valued_of_evalStrict tree h
  · exact exists_evalStrict tree

/-- **Short-circuiting only avoids errors.**  For every tree, whatever may be named and whatever the
variables stand for: a value that comes of evaluating all operands is the tree's value; where the
tree has an error, evaluating all operands ends in an error too; and evaluating all operands comes
to a value exactly when every node of the tree has one, so an operand that is left out makes a
difference only by its errors. -/
theorem short_circuit_only_avoids_errors (v : Vocabulary) (bindings : Bindings) (tree : Expr) :
    (∀ value, tree.evalStrict v bindings = .ok value → tree.eval v bindings = .ok value) ∧
    (∀ e, tree.eval v bindings = .error e → ∃ e', tree.evalStrict v bindings = .error e') ∧
    ((∃ value, tree.evalStrict v bindings = .ok value) ↔
      ∀ node ∈ tree.nodes, ∃ value, node.eval v bindings = .ok value) := by
  refine ⟨fun value h => eval_of_evalStrict tree h, ?_, exists_evalStrict_iff⟩
  intro e h
  cases hstrict : tree.evalStrict v bindings with
  | error e' => exact ⟨e', rfl⟩
  | ok value =>
    rw [eval_of_evalStrict tree hstrict] at h
    cases h

/-- The tree of `twosGames && ones / x`. -/
def gamesAndQuotient (x : Double) : Expr :=
  .binary .and (.var "twosGames") (.binary .div (.var "ones") (.number x))

/-- `twosGames && ones / -2` is true for the sample player with all operands evaluated, hence with
those needed; `twosGames && ones / 0` is an error either way; and `0 && ones / 0` is an error only
if the division is made. -/
theorem short_circuit_only_avoids_errors_quotient :
    (gamesAndQuotient (-.ofNat 2)).evalStrict .full (.ofPlayer .sample) = .ok 1 ∧
    (gamesAndQuotient (-.ofNat 2)).eval .full (.ofPlayer .sample) = .ok 1 ∧
    (∃ e, (gamesAndQuotient 0).evalStrict .full (.ofPlayer .sample) = .error e) ∧
    (gamesAndQuotient 0).eval .full (.ofPlayer .blank) = .ok 0 ∧
    (gamesAndQuotient 0).evalStrict .full (.ofPlayer .blank) = .error .divisionByZero := by
  have strict : (gamesAndQuotient (-.ofNat 2)).evalStrict .full (.ofPlayer .sample) = .ok 1 := by
    decide +kernel
  have stopped : (gamesAndQuotient 0).eval .full (.ofPlayer .sample) = .error .divisionByZero := by
    decide +kernel
  have saved : (gamesAndQuotient 0).eval .full (.ofPlayer .blank) = .ok 0 ∧
      (gamesAndQuotient 0).evalStrict .full (.ofPlayer .blank) = .error .divisionByZero := by
    decide +kernel
  exact ⟨strict, (short_circuit_only_avoids_errors _ _ _).1 _ strict,
    (short_circuit_only_avoids_errors _ _ _).2.1 _ stopped, saved⟩

end Expr
end Formula
end GuildRating
