/-
# Operands that are not needed

A place is a tree with one subtree left open; filling it puts a tree there, and every node of a tree
stands at such a place (`mem_nodes_iff_exists_fill`).  An evaluation sees no more of a subtree than
what its own evaluation comes to (`eval_fill`).  A conditional comes to what its selected
branch comes to, and a logical operator that is settled by its left operand to zero or one, so what
stands in the branch or operand that is not needed never matters, wherever in a tree that is
(`unneeded_operand_never_matters`).
-/

import GuildRating.Proofs.Check.Sound
import GuildRating.Proofs.Evaluation.Finite

namespace GuildRating
namespace Formula

/-- A tree with one subtree left open. -/
inductive Place where
  | here
  | inOperand (op : UnaryOp) (inner : Place)
  | inLeft (op : BinaryOp) (inner : Place) (right : Expr)
  | inRight (op : BinaryOp) (left : Expr) (inner : Place)
  | inCondition (inner : Place) (whenTrue whenFalse : Expr)
  | inWhenTrue (condition : Expr) (inner : Place) (whenFalse : Expr)
  | inWhenFalse (condition whenTrue : Expr) (inner : Place)
  | inArgument (name : String) (before : List Expr) (inner : Place) (after : List Expr)

/-- The tree with this subtree at the place. -/
def Place.fill (tree : Expr) : Place → Expr
  | here => tree
  | inOperand op inner => .unary op (inner.fill tree)
  | inLeft op inner right => .binary op (inner.fill tree) right
  | inRight op left inner => .binary op left (inner.fill tree)
  | inCondition inner whenTrue whenFalse => .conditional (inner.fill tree) whenTrue whenFalse
  | inWhenTrue condition inner whenFalse => .conditional condition (inner.fill tree) whenFalse
  | inWhenFalse condition whenTrue inner => .conditional condition whenTrue (inner.fill tree)
  | inArgument name before inner after => .call name (before ++ inner.fill tree :: after)

namespace Expr

variable {v : Vocabulary} {bindings : Bindings} {node : Expr}

/-! ### Every node stands at a place -/

/-- A tree is one of its nodes. -/
theorem mem_nodes_self (tree : Expr) : tree ∈ tree.nodes := by
  cases tree <;> exact List.mem_cons_self

theorem allNodes_append (before after : List Expr) :
    allNodes (before ++ after) = allNodes before ++ allNodes after := by
  induction before with
  | nil => rfl
  | cons arg before ih => rw [List.cons_append, allNodes, allNodes, ih, List.append_assoc]

/-- What fills a place is a node of the tree. -/
theorem mem_nodes_fill (node : Expr) : (place : Place) → node ∈ (place.fill node).nodes
  | .here => mem_nodes_self node
  | .inOperand _ inner | .inLeft _ inner _ | .inRight _ _ inner | .inCondition inner _ _
  | .inWhenTrue _ inner _ | .inWhenFalse _ _ inner => by
    have := mem_nodes_fill node inner
    simp [Place.fill, nodes, this]
  | .inArgument _ _ inner _ => by
    have := mem_nodes_fill node inner
    simp [Place.fill, nodes, allNodes_append, allNodes, this]

mutual

/-- The place of a node. -/
theorem exists_fill : (tree : Expr) → node ∈ tree.nodes → ∃ place : Place, place.fill node = tree
  | number _, h | var _, h => ⟨.here, List.mem_singleton.1 h⟩
  | unary op operand, h => by
    rcases List.mem_cons.1 h with rfl | h
    · exact ⟨.here, rfl⟩
    · obtain ⟨inner, rfl⟩ := exists_fill operand h
      exact ⟨.inOperand op inner, rfl⟩
  | binary op left right, h => by
    rw [nodes, List.mem_cons, List.mem_append] at h
    rcases h with rfl | h | h
    · exact ⟨.here, rfl⟩
    · obtain ⟨inner, rfl⟩ := exists_fill left h
      exact ⟨.inLeft op inner right, rfl⟩
    · obtain ⟨inner, rfl⟩ := exists_fill right h
      exact ⟨.inRight op left inner, rfl⟩
  | conditional condition whenTrue whenFalse, h => by
    rw [nodes, List.mem_cons, List.mem_append, List.mem_append] at h
    rcases h with rfl | h | h | h
    · exact ⟨.here, rfl⟩
    · obtain ⟨inner, rfl⟩ := exists_fill condition h
      exact ⟨.inCondition inner whenTrue whenFalse, rfl⟩
    · obtain ⟨inner, rfl⟩ := exists_fill whenTrue h
      exact ⟨.inWhenTrue condition inner whenFalse, rfl⟩
    · obtain ⟨inner, rfl⟩ := exists_fill whenFalse h
      exact ⟨.inWhenFalse condition whenTrue inner, rfl⟩
  | call name args, h => by
    rw [nodes, List.mem_cons] at h
    rcases h with rfl | h
    · exact ⟨.here, rfl⟩
    · obtain ⟨before, inner, after, rfl⟩ := exists_fillAll args h
      exact ⟨.inArgument name before inner after, rfl⟩

/-- A node of the arguments fills a place in one of them. -/
theorem exists_fillAll : (args : List Expr) → node ∈ allNodes args →
    ∃ before, ∃ inner : Place, ∃ after, before ++ inner.fill node :: after = args
  | [], h => absurd h List.not_mem_nil
  | arg :: rest, h => by
    rw [allNodes, List.mem_append] at h
    rcases h with h | h
    · obtain ⟨inner, rfl⟩ := exists_fill arg h
      exact ⟨[], inner, rest, rfl⟩
    · obtain ⟨before, inner, after, rfl⟩ := exists_fillAll rest h
      exact ⟨arg :: before, inner, after, rfl⟩

end

/-- **The nodes of a tree are what stands at its places.** -/
theorem mem_nodes_iff_exists_fill {tree : Expr} :
    node ∈ tree.nodes ↔ ∃ place : Place, place.fill node = tree := by
  constructor
  · exact exists_fill tree
  · rintro ⟨place, rfl⟩
    exact mem_nodes_fill node place

/-! ### What an evaluation sees of a subtree -/

/-- Arguments have the same values with one of them replaced by another of the same value. -/
theorem evalAll_append {tree tree' : Expr} (h : tree.eval v bindings = tree'.eval v bindings)
    (before after : List Expr) :
    evalAll v bindings (before ++ tree :: after) =
      evalAll v bindings (before ++ tree' :: after) := by
  induction before with
  | nil => rw [List.nil_append, List.nil_append, evalAll, evalAll, h]
  | cons arg before ih => rw [List.cons_append, List.cons_append, evalAll, evalAll, ih]

/-- **A subtree matters by what it comes to only**: subtrees with the same value or the same error
can stand for each other at every place. -/
theorem eval_fill {tree tree' : Expr} (h : tree.eval v bindings = tree'.eval v bindings)
    (place : Place) : (place.fill tree).eval v bindings = (place.fill tree').eval v bindings := by
  induction place with
  | here => exact h
  | inOperand op inner ih => rw [Place.fill, Place.fill, eval, eval, ih]
  | inLeft op inner right ih => rw [Place.fill, Place.fill, eval, eval, ih]
  | inRight op left inner ih => rw [Place.fill, Place.fill, eval, eval, ih]
  | inCondition inner whenTrue whenFalse ih => rw [Place.fill, Place.fill, eval, eval, ih]
  | inWhenTrue condition inner whenFalse ih => rw [Place.fill, Place.fill, eval, eval, ih]
  | inWhenFalse condition whenTrue inner ih => rw [Place.fill, Place.fill, eval, eval, ih]
  | inArgument name before inner after ih =>
    rw [Place.fill, Place.fill, eval, eval, evalAll_append ih before after]
    simp only [List.length_append, List.length_cons]

/-! ### What a node comes to -/

/-- A conditional comes to what its selected branch comes to. -/
theorem eval_conditional {condition : Expr} {x : Double} (h : condition.eval v bindings = .ok x)
    (whenTrue whenFalse : Expr) :
    (conditional condition whenTrue whenFalse).eval v bindings =
      (if x.isZero then whenFalse else whenTrue).eval v bindings := by
  rw [eval, h, ok_bind, apply_ite (eval v bindings)]

/-- An operator that its left operand settles comes to what that settles. -/
theorem eval_settled {op : BinaryOp} {left : Expr} {x value : Double}
    (h : left.eval v bindings = .ok x) (hsettled : op.settled? x = some value) (right : Expr) :
    (binary op left right).eval v bindings = (number value).eval v bindings := by
  have hfinite : value.isFinite = true := BinaryOp.isFinite_of_settled hsettled
  rw [eval, eval, h, ok_bind, hsettled, checked_of_isFinite hfinite]
  rfl

/-- Where both operands are needed, they are evaluated and the operator is applied. -/
theorem eval_binary {op : BinaryOp} {left right : Expr} {x y : Double}
    (hsettled : op.settled? x = none) (hleft : left.eval v bindings = .ok x)
    (hright : right.eval v bindings = .ok y) :
    (binary op left right).eval v bindings = op.apply x y := by
  rw [eval, hleft, ok_bind, hsettled, hright, ok_bind]

/-- A call comes to the function's value, if it has one for the values of the arguments. -/
theorem eval_call {name : String} {args : List Expr} {f : Function} {values : List Double}
    {value : Double} (hname : v.findFunction? name = some f)
    (hvalues : evalAll v bindings args = .ok values) (hvalue : f.value? values = some value) :
    (call name args).eval v bindings = checked f.name value values := by
  have haccepts : f.arity.accepts args.length = true := by
    rw [← length_of_evalAll hvalues, ← Function.isSome_value?, hvalue]
    rfl
  rw [eval, hname]
  dsimp only
  rw [if_pos haccepts, hvalues, ok_bind, hvalue]

/-- The values of arguments are those of the first one and of the rest. -/
theorem evalAll_cons {arg : Expr} {rest : List Expr} {x : Double} {values : List Double}
    (harg : arg.eval v bindings = .ok x) (hrest : evalAll v bindings rest = .ok values) :
    evalAll v bindings (arg :: rest) = .ok (x :: values) := by
  rw [evalAll, harg, ok_bind, hrest, ok_bind]
  rfl

/-! ### What is not needed -/

/-- The trees differ in one operand at most, and it is not needed. -/
inductive DifferUnneeded (v : Vocabulary) (bindings : Bindings) : Expr → Expr → Prop
  | whenFalse {condition whenTrue whenFalse whenFalse' : Expr} {x : Double} :
      condition.eval v bindings = .ok x → x.isZero = false →
      DifferUnneeded v bindings (.conditional condition whenTrue whenFalse)
        (.conditional condition whenTrue whenFalse')
  | whenTrue {condition whenTrue whenTrue' whenFalse : Expr} {x : Double} :
      condition.eval v bindings = .ok x → x.isZero = true →
      DifferUnneeded v bindings (.conditional condition whenTrue whenFalse)
        (.conditional condition whenTrue' whenFalse)
  | and {left right right' : Expr} {x : Double} :
      left.eval v bindings = .ok x → x.isZero = true →
      DifferUnneeded v bindings (.binary .and left right) (.binary .and left right')
  | or {left right right' : Expr} {x : Double} :
      left.eval v bindings = .ok x → x.isZero = false →
      DifferUnneeded v bindings (.binary .or left right) (.binary .or left right')

/-- **A difference in an operand that is not needed does not show.** -/
theorem DifferUnneeded.eval_eq {tree tree' : Expr} (h : DifferUnneeded v bindings tree tree') :
    tree.eval v bindings = tree'.eval v bindings := by
  cases h with
  | whenFalse hcondition hx =>
    rw [eval_conditional hcondition, eval_conditional hcondition, hx]
    rfl
  | whenTrue hcondition hx =>
    rw [eval_conditional hcondition, eval_conditional hcondition, hx]
    rfl
  | and hleft hx =>
    have settled : BinaryOp.and.settled? _ = some 0 := if_pos hx
    rw [eval_settled hleft settled, eval_settled hleft settled]
  | @or _ _ _ x hleft hx =>
    have settled : BinaryOp.or.settled? x = some 1 := by
      rw [BinaryOp.settled?, hx]
      rfl
    rw [eval_settled hleft settled, eval_settled hleft settled]

/-- **An operand that is not needed never matters.**  At every place in every tree, and every node
stands at such a place, the branch that a condition does not select can be replaced by anything, and
so can the right operand of `&&` and `||` where the left one settles the result: the whole tree
keeps its value or its error.  It has the value or the error that it would have with the selected
branch alone, or the settled value, at this place; so no error comes from what is not needed. -/
theorem unneeded_operand_never_matters (v : Vocabulary) (bindings : Bindings) :
    (∀ tree node : Expr, node ∈ tree.nodes ↔ ∃ place : Place, place.fill node = tree) ∧
    (∀ (place : Place) (tree tree' : Expr), DifferUnneeded v bindings tree tree' →
      (place.fill tree).eval v bindings = (place.fill tree').eval v bindings) ∧
    (∀ (place : Place) (condition whenTrue whenFalse : Expr) (x : Double),
      condition.eval v bindings = .ok x →
      (place.fill (.conditional condition whenTrue whenFalse)).eval v bindings =
        (place.fill (if x.isZero then whenFalse else whenTrue)).eval v bindings) ∧
    (∀ (place : Place) (op : BinaryOp) (left right : Expr) (x value : Double),
      left.eval v bindings = .ok x → op.settled? x = some value →
      (place.fill (.binary op left right)).eval v bindings =
        (place.fill (.number value)).eval v bindings) := by
  refine ⟨fun _ _ => mem_nodes_iff_exists_fill, ?_, ?_, ?_⟩
  · intro place tree tree' h
    exact eval_fill h.eval_eq place
  · intro place condition whenTrue whenFalse x h
    exact eval_fill (eval_conditional h whenTrue whenFalse) place
  · intro place op left right x value h hsettled
    exact eval_fill (eval_settled h hsettled right) place

/-- The second argument of a call of `max`, whose first argument is `ones / 0`. -/
def besideDivision : Place := .inArgument "max" [.binary .div (.var "ones") (.number 0)] .here []

/-- The left operand of a sum with `ones`. -/
def besideOnes : Place := .inLeft .add .here (.var "ones")

/-- In `(0 ? ones / 0 : 1) + ones` the division is never made, and an unknown name can stand for it;
and where `max(ones / 0, …)` fails before it, it fails alike whatever stands behind `0 &&`. -/
theorem unneeded_operand_never_matters_division :
    (besideOnes.fill (.conditional (.number 0) (.binary .div (.var "ones") (.number 0))
        (.number 1))).eval .full (.ofPlayer .sample) =
      (besideOnes.fill (.conditional (.number 0) (.var "nobody") (.number 1))).eval .full
        (.ofPlayer .sample) ∧
    (besideOnes.fill (.conditional (.number 0) (.var "nobody") (.number 1))).eval .full
        (.ofPlayer .sample) = .ok (.ofNat 1051) ∧
    (besideDivision.fill (.binary .and (.number 0) (.var "nobody"))).eval .full
        (.ofPlayer .sample) = .error .divisionByZero ∧
    (besideDivision.fill (.binary .and (.number 0) (.number 1))).eval .full
        (.ofPlayer .sample) = .error .divisionByZero := by
  obtain ⟨-, replaced, selected, settled⟩ :=
    unneeded_operand_never_matters .full (.ofPlayer .sample)
  have zero : (Expr.number 0).eval .full (.ofPlayer .sample) = .ok 0 := rfl
  have failing : (besideDivision.fill (.number 0)).eval .full (.ofPlayer .sample) =
      .error .divisionByZero := by decide +kernel
  refine ⟨replaced besideOnes _ _ (.whenTrue zero rfl), ?_, ?_, ?_⟩
  · rw [selected besideOnes _ _ _ _ zero]
    decide +kernel
  · rw [settled besideDivision .and _ _ _ _ zero rfl, failing]
  · rw [settled besideDivision .and _ _ _ _ zero rfl, failing]

end Expr
end Formula
end GuildRating
