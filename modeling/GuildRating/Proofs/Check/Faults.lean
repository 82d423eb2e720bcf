/-
# The first fault of a tree

`Expr.nodes` lists a tree in pre-order: a node before its operands or arguments, and these from left
to right.  A node may be at fault by itself, when its name is not known or its number of arguments
is not accepted (`Vocabulary.Fault`); otherwise the vocabulary resolves it (`Vocabulary.Resolves`).
The check of the names looks for the first node at fault and reports it
(`checkNames_eq_error_iff`), and accepts a tree exactly when all of its nodes are resolved
(`checkNames_eq_ok_iff`).
-/

import GuildRating.Formula.Check
import GuildRating.Proofs.Check.Names
import GuildRating.Proofs.Steps

namespace GuildRating
namespace Formula

namespace Expr

mutual

/-- The nodes of a tree in pre-order, each with what is below it. -/
def nodes : Expr → List Expr
  | number value => [number value]
  | var name => [var name]
  | unary op operand => unary op operand :: operand.nodes
  | binary op left right => binary op left right :: (left.nodes ++ right.nodes)
  | conditional condition whenTrue whenFalse =>
    conditional condition whenTrue whenFalse ::
      (condition.nodes ++ (whenTrue.nodes ++ whenFalse.nodes))
  | call name args => call name args :: allNodes args

/-- The nodes of all arguments, one argument after the other. -/
def allNodes : List Expr → List Expr
  | [] => []
  | arg :: rest => arg.nodes ++ allNodes rest

end

mutual

/-- The size of a tree counts its nodes. -/
theorem length_nodes : (tree : Expr) → tree.nodes.length = tree.size
  | number _ | var _ => rfl
  | unary _ operand => by
    rw [nodes, size, List.length_cons, length_nodes operand]
    omega
  | binary _ left right => by
    rw [nodes, size, List.length_cons, List.length_append, length_nodes left, length_nodes right]
    omega
  | conditional condition whenTrue whenFalse => by
    rw [nodes, size, List.length_cons, List.length_append, List.length_append,
      length_nodes condition, length_nodes whenTrue, length_nodes whenFalse]
    omega
  | call _ args => by
    rw [nodes, size, List.length_cons, length_allNodes args]
    omega

theorem length_allNodes : (args : List Expr) → (allNodes args).length = totalSize args
  | [] => rfl
  | arg :: rest => by
    rw [allNodes, totalSize, List.length_append, length_nodes arg, length_allNodes rest]

end

end Expr

namespace Vocabulary

variable {v : Vocabulary} {node : Expr} {e : CheckError}

/-- The node is at fault by itself, and this is the error that says so. -/
inductive Fault (v : Vocabulary) : Expr → CheckError → Prop where
  | unknownVariable {name : String} : (∀ x ∈ v.knownVariables, x.name ≠ name) →
      Fault v (.var name) (.unknownVariable name v.variableNames)
  | unknownFunction {name : String} {args : List Expr} :
      (∀ f ∈ v.knownFunctions, ¬ f.IsCalled name) →
      Fault v (.call name args) (.unknownFunction name v.functionNames)
  | wrongArity {name : String} {args : List Expr} {f : Function} : f ∈ v.knownFunctions →
      f.IsCalled name → f.arity.accepts args.length = false →
      Fault v (.call name args) (.wrongArity name f.arity args.length)

/-- The name of the node is known, and a function of that name accepts as many arguments. -/
def Resolves (v : Vocabulary) : Expr → Prop
  | .var name => ∃ x ∈ v.knownVariables, x.name = name
  | .call name args =>
    ∃ f ∈ v.knownFunctions, f.IsCalled name ∧ f.arity.accepts args.length = true
  | .number _ | .unary _ _ | .binary _ _ _ | .conditional _ _ _ => True

/-- The fault of a node by itself, as the check finds it. -/
def fault? (v : Vocabulary) : Expr → Option CheckError
  | .var name =>
    match v.findVariable? name with
    | some _ => none
    | none => some (.unknownVariable name v.variableNames)
  | .call name args =>
    match v.findFunction? name with
    | none => some (.unknownFunction name v.functionNames)
    | some f =>
      if f.arity.accepts args.length then none else some (.wrongArity name f.arity args.length)
  | .number _ | .unary _ _ | .binary _ _ _ | .conditional _ _ _ => none

/-- The check finds the fault that a node has. -/
theorem fault?_eq_some_iff : v.fault? node = some e ↔ v.Fault node e := by
  constructor
  · intro h
    cases node with
    | number | unary | binary | conditional => cases h
    | var name =>
      rw [fault?] at h
      split at h
      · cases h
      · next hname =>
        cases h
        exact .unknownVariable (findVariable?_eq_none_iff.1 hname)
    | call name args =>
      rw [fault?] at h
      split at h
      · next hname =>
        cases h
        exact .unknownFunction (findFunction?_eq_none_iff.1 hname)
      · next f hname =>
        split at h
        · cases h
        · next haccepts =>
          cases h
          obtain ⟨hf, hcalled⟩ := findFunction?_eq_some_iff.1 hname
          exact .wrongArity hf hcalled (eq_false_of_ne_true haccepts)
  · intro h
    cases h with
    | unknownVariable hname => rw [fault?, findVariable?_eq_none_iff.2 hname]
    | unknownFunction hname => rw [fault?, findFunction?_eq_none_iff.2 hname]
    | wrongArity hf hcalled haccepts =>
      rw [fault?, findFunction?_eq_some_iff.2 ⟨hf, hcalled⟩]
      dsimp only
      rw [haccepts]
      rfl

/-- The check finds no fault exactly at the nodes that are resolved. -/
theorem fault?_eq_none_iff : v.fault? node = none ↔ v.Resolves node := by
  cases node with
  | number | unary | binary | conditional => exact ⟨fun _ => trivial, fun _ => rfl⟩
  | var name =>
    rw [fault?, Resolves]
    cases hname : v.findVariable? name with
    | some x => exact ⟨fun _ => ⟨x, findVariable?_eq_some_iff.1 hname⟩, fun _ => rfl⟩
    | none =>
      refine ⟨nofun, ?_⟩
      rintro ⟨x, hx, hname'⟩
      exact absurd hname' (findVariable?_eq_none_iff.1 hname x hx)
  | call name args =>
    rw [fault?, Resolves]
    cases hname : v.findFunction? name with
    | none =>
      refine ⟨nofun, ?_⟩
      rintro ⟨f, hf, hcalled, -⟩
      exact absurd hcalled (findFunction?_eq_none_iff.1 hname f hf)
    | some f =>
      obtain ⟨hf, hcalled⟩ := findFunction?_eq_some_iff.1 hname
      dsimp only
      constructor
      · intro h
        by_cases haccepts : f.arity.accepts args.length = true
        · exact ⟨f, hf, hcalled, haccepts⟩
        · rw [if_neg haccepts] at h
          cases h
      · -- The name stands for one function only.
        rintro ⟨g, hg, hcalled', haccepts⟩
        have same := hname.symm.trans (findFunction?_eq_some_iff.2 ⟨hg, hcalled'⟩)
        rw [Option.some.inj same, if_pos haccepts]

end Vocabulary

namespace Expr

open Vocabulary (Fault Resolves fault?)

variable {v : Vocabulary} {tree : Expr} {e : CheckError}

/-- The outcome of a search for a fault. -/
def report : Option CheckError → Except CheckError Unit
  | none => .ok ()
  | some e => .error e

/-- Looking for a fault in two places, the second one is looked at if the first has none. -/
theorem report_or (x y : Option CheckError) :
    report (x.or y) = (report x >>= fun _ => report y) := by
  cases x <;> rfl

mutual

/-- **The check reports the first fault in pre-order.** -/
theorem checkNames_eq_report (v : Vocabulary) : (tree : Expr) →
    tree.checkNames v = report (tree.nodes.findSome? v.fault?)
  | number _ => rfl
  | var name => by
    rw [checkNames, nodes, List.findSome?_cons, List.findSome?_nil, fault?]
    cases v.findVariable? name <;> rfl
  | unary op operand => by
    rw [checkNames, nodes, List.findSome?_cons, fault?, checkNames_eq_report v operand]
  | binary op left right => by
    rw [checkNames, nodes, List.findSome?_cons, fault?, List.findSome?_append, report_or,
      checkNames_eq_report v left, checkNames_eq_report v right]
  | conditional condition whenTrue whenFalse => by
    rw [checkNames, nodes, List.findSome?_cons, fault?, List.findSome?_append,
      List.findSome?_append, report_or, report_or, checkNames_eq_report v condition,
      checkNames_eq_report v whenTrue, checkNames_eq_report v whenFalse]
  | call name args => by
    rw [checkNames, nodes, List.findSome?_cons, fault?, checkAllNames_eq_report v args]
    cases v.findFunction? name with
    | none => rfl
    | some f => cases hf : f.arity.accepts args.length <;> simp [hf, report]

/-- The check of arguments reports the first fault among their nodes. -/
theorem checkAllNames_eq_report (v : Vocabulary) : (args : List Expr) →
    checkAllNames v args = report ((allNodes args).findSome? v.fault?)
  | [] => rfl
  | arg :: rest => by
    rw [checkAllNames, allNodes, List.findSome?_append, report_or, checkNames_eq_report v arg,
      checkAllNames_eq_report v rest]

end

/-- The check of the names accepts a tree exactly when all of its nodes are resolved. -/
theorem checkNames_eq_ok_iff :
    tree.checkNames v = .ok () ↔ ∀ node ∈ tree.nodes, v.Resolves node := by
  have outcome : report (tree.nodes.findSome? v.fault?) = .ok () ↔
      tree.nodes.findSome? v.fault? = none := by
    cases tree.nodes.findSome? v.fault? <;> simp [report]
  rw [checkNames_eq_report, outcome, List.findSome?_eq_none_iff]
  simp only [Vocabulary.fault?_eq_none_iff]

/-- The check of the names reports a fault exactly when all nodes before the node at fault are
resolved. -/
theorem checkNames_eq_error_iff : tree.checkNames v = .error e ↔
    ∃ before node after, tree.nodes = before ++ node :: after ∧
      (∀ earlier ∈ before, v.Resolves earlier) ∧ v.Fault node e := by
  have outcome : report (tree.nodes.findSome? v.fault?) = .error e ↔
      tree.nodes.findSome? v.fault? = some e := by
    cases tree.nodes.findSome? v.fault? <;> simp [report]
  rw [checkNames_eq_report, outcome, List.findSome?_eq_some_iff]
  simp only [Vocabulary.fault?_eq_none_iff, Vocabulary.fault?_eq_some_iff]
  constructor
  · rintro ⟨before, node, after, hnodes, hfault, hbefore⟩
    exact ⟨before, node, after, hnodes, hbefore, hfault⟩
  · rintro ⟨before, node, after, hnodes, hbefore, hfault⟩
    exact ⟨before, node, after, hnodes, hfault, hbefore⟩

end Expr
end Formula
end GuildRating
