/-
# The alias of a function's name

A function may be called by its name after `Math.`.  `Expr.unaliased` is the tree with every such
name replaced by the function's own.  The check comes to the same with either tree and finds the
same fault, in which at most the name of the called function is written otherwise
(`check_unaliased`); and once a tree is accepted its evaluation has no trace of the alias, not even
in its errors (`eval_unaliased`).  Nothing else may stand before a name: what ends in the name of a
function is a function's name only with nothing or with `Math.` before it
(`Function.eq_alias_of_isCalled`), and before a variable there may stand nothing at all
(`Variable.eq_empty_of_name`).
-/

import Mathlib.Control.Monad.Basic
import GuildRating.Proofs.Check.Sound

namespace GuildRating
namespace Formula

/-! ### What may stand before a name -/

/-- No function's name ends in that of another one. -/
theorem Function.eq_of_name_suffix {f g : Function} (h : f.name.toList <:+ g.name.toList) :
    f = g := by
  cases f <;> cases g <;> first | rfl | exact absurd h (by decide)

/-- No variable's name ends in that of another one. -/
theorem Variable.eq_of_name_suffix {x y : Variable} (h : x.name.toList <:+ y.name.toList) :
    x = y := by
  have apart : ∀ x ∈ all, ∀ y ∈ all, x.name.toList <:+ y.name.toList → x = y := by decide
  exact apart x (mem_all x) y (mem_all y) h

/-- Only nothing or `Math.` may stand before the name of a function. -/
theorem Function.eq_alias_of_isCalled {f g : Function} {start : String}
    (h : g.IsCalled (start ++ f.name)) : start = "" ∨ start = "Math." := by
  have ends : f.name.toList <:+ (start ++ f.name).toList := by
    rw [String.toList_append]
    exact List.suffix_append _ _
  rcases h with h | h
  · rw [h] at ends
    obtain rfl := eq_of_name_suffix ends
    exact .inl (String.append_eq_right_iff.1 h)
  · rw [h, toList_alias] at ends
    have same : f = g := by
      rcases List.suffix_or_suffix_of_suffix ends (List.suffix_append _ _) with hfg | hgf
      · exact eq_of_name_suffix hfg
      · exact (eq_of_name_suffix hgf).symm
    rw [same] at h
    exact .inr ((String.append_left_inj _).1 h)

/-- Nothing may stand before the name of a variable. -/
theorem Variable.eq_empty_of_name {x y : Variable} {start : String}
    (h : y.name = start ++ x.name) : start = "" := by
  have ends : x.name.toList <:+ y.name.toList := by
    rw [h, String.toList_append]
    exact List.suffix_append _ _
  obtain rfl := eq_of_name_suffix ends
  exact String.append_eq_right_iff.1 h.symm

/-! ### The tree without the alias -/

/-- The function's own name for its name after `Math.`, if the vocabulary has the function; any
other name stays. -/
def Vocabulary.unaliased (v : Vocabulary) (name : String) : String :=
  match v.knownFunctions.find? fun f => name = "Math." ++ f.name with
  | some f => f.name
  | none => name

/-- The same error, with a call that has the wrong number of arguments named without `Math.`. -/
def CheckError.unaliased (v : Vocabulary) : CheckError → CheckError
  | wrongArity name arity found => wrongArity (v.unaliased name) arity found
  | e => e

namespace Expr

mutual

/-- The tree with all functions called by their own names. -/
def unaliased (v : Vocabulary) : Expr → Expr
  | number value => number value
  | var name => var name
  | unary op operand => unary op (operand.unaliased v)
  | binary op left right => binary op (left.unaliased v) (right.unaliased v)
  | conditional condition whenTrue whenFalse =>
    conditional (condition.unaliased v) (whenTrue.unaliased v) (whenFalse.unaliased v)
  | call name args => call (v.unaliased name) (unaliasedAll v args)

/-- The arguments of a call with all functions called by their own names. -/
def unaliasedAll (v : Vocabulary) : List Expr → List Expr
  | [] => []
  | arg :: rest => arg.unaliased v :: unaliasedAll v rest

end

end Expr

variable {v : Vocabulary} {name : String}

/-- Either name is bared to the same one. -/
theorem Vocabulary.bareName_unaliased : bareName (v.unaliased name) = bareName name := by
  unfold unaliased
  split
  · next f hf =>
    have hname : name = "Math." ++ f.name := by simpa using List.find?_some hf
    calc bareName f.name
      _ = f.name := (bareName_eq_iff.2 (.inl rfl)).symm
      _ = bareName ("Math." ++ f.name) := bareName_eq_iff.2 (.inr rfl)
      _ = bareName name := by rw [hname]
  · rfl

/-- Either name finds the same function. -/
theorem Vocabulary.findFunction?_unaliased :
    v.findFunction? (v.unaliased name) = v.findFunction? name := by
  rw [findFunction?, findFunction?, bareName_unaliased]

/-- A name that is not known stays. -/
theorem Vocabulary.unaliased_of_findFunction?_eq_none (h : v.findFunction? name = none) :
    v.unaliased name = name := by
  unfold unaliased
  split
  · next f hf =>
    have hname : name = "Math." ++ f.name := by simpa using List.find?_some hf
    exact absurd (.inr hname) (findFunction?_eq_none_iff.1 h f (List.mem_of_find?_eq_some hf))
  · rfl

namespace Expr

theorem length_unaliasedAll (args : List Expr) :
    (unaliasedAll v args).length = args.length := by
  induction args with
  | nil => rfl
  | cons arg rest ih => rw [unaliasedAll, List.length_cons, List.length_cons, ih]

/-! ### The check -/

mutual

/-- The alias does not count for the size of a tree. -/
theorem size_unaliased : (tree : Expr) → (tree.unaliased v).size = tree.size
  | number _ | var _ => rfl
  | unary _ operand => by rw [unaliased, size, size, size_unaliased operand]
  | binary _ left right => by
    rw [unaliased, size, size, size_unaliased left, size_unaliased right]
  | conditional condition whenTrue whenFalse => by
    rw [unaliased, size, size, size_unaliased condition, size_unaliased whenTrue,
      size_unaliased whenFalse]
  | call _ args => by rw [unaliased, size, size, totalSize_unaliasedAll args]

theorem totalSize_unaliasedAll : (args : List Expr) →
    totalSize (unaliasedAll v args) = totalSize args
  | [] => rfl
  | arg :: rest => by
    rw [unaliasedAll, totalSize, totalSize, size_unaliased arg, totalSize_unaliasedAll rest]

end

mutual

/-- The alias does not count for the depth of a tree. -/
theorem depth_unaliased : (tree : Expr) → (tree.unaliased v).depth = tree.depth
  | number _ | var _ => rfl
  | unary _ operand => by rw [unaliased, depth, depth, depth_unaliased operand]
  | binary _ left right => by
    rw [unaliased, depth, depth, depth_unaliased left, depth_unaliased right]
  | conditional condition whenTrue whenFalse => by
    rw [unaliased, depth, depth, depth_unaliased condition, depth_unaliased whenTrue,
      depth_unaliased whenFalse]
  | call _ args => by rw [unaliased, depth, depth, deepest_unaliasedAll args]

theorem deepest_unaliasedAll : (args : List Expr) →
    deepest (unaliasedAll v args) = deepest args
  | [] => rfl
  | arg :: rest => by
    rw [unaliasedAll, deepest, deepest, depth_unaliased arg, deepest_unaliasedAll rest]

end

mutual

/-- The names of either tree have the same first fault. -/
theorem checkNames_unaliased : (tree : Expr) →
    (tree.unaliased v).checkNames v = (tree.checkNames v).mapError (CheckError.unaliased v)
  | number _ => rfl
  | var name => by
    rw [unaliased, checkNames]
    cases v.findVariable? name <;> rfl
  | unary _ operand => by
    rw [unaliased, checkNames, checkNames, checkNames_unaliased operand]
  | binary _ left right => by
    rw [unaliased, checkNames, checkNames, mapError_bind, checkNames_unaliased left,
      checkNames_unaliased right]
  | conditional condition whenTrue whenFalse => by
    rw [unaliased, checkNames, checkNames, mapError_bind, checkNames_unaliased condition]
    simp only [mapError_bind, checkNames_unaliased whenTrue, checkNames_unaliased whenFalse]
  | call name args => by
    rw [unaliased, checkNames, checkNames, Vocabulary.findFunction?_unaliased,
      length_unaliasedAll]
    cases hname : v.findFunction? name with
    | none => rw [Vocabulary.unaliased_of_findFunction?_eq_none hname]; rfl
    | some f =>
      dsimp only
      cases f.arity.accepts args.length with
      | true => exact checkAllNames_unaliased args
      | false => rfl

/-- The names in arguments are checked alike with and without the alias. -/
theorem checkAllNames_unaliased : (args : List Expr) →
    checkAllNames v (unaliasedAll v args) =
      (checkAllNames v args).mapError (CheckError.unaliased v)
  | [] => rfl
  | arg :: rest => by
    rw [unaliasedAll, checkAllNames, checkAllNames, mapError_bind, checkNames_unaliased arg,
      checkAllNames_unaliased rest]

end

/-- **The check is the same without the alias**, up to how it names a call. -/
theorem check_unaliased (limits : Limits) (tree : Expr) : (tree.unaliased v).check v limits =
    (tree.check v limits).mapError (CheckError.unaliased v) := by
  rw [check, check, size_unaliased, depth_unaliased, checkNames_unaliased]
  split
  · rfl
  · split
    · rfl
    · rfl

/-! ### The evaluation -/

variable {bindings : Bindings}

mutual

/-- **The evaluation of resolved nodes is the same without the alias.** -/
theorem eval_unaliased : (tree : Expr) → (∀ node ∈ tree.nodes, v.Resolves node) →
    (tree.unaliased v).eval v bindings = tree.eval v bindings
  | number _, _ => rfl
  | var _, _ => rfl
  | unary _ operand, h => by
    rw [nodes, List.forall_mem_cons] at h
    rw [unaliased, eval, eval, eval_unaliased operand h.2]
  | binary _ left right, h => by
    rw [nodes, List.forall_mem_cons, List.forall_mem_append] at h
    rw [unaliased, eval, eval, eval_unaliased left h.2.1, eval_unaliased right h.2.2]
  | conditional condition whenTrue whenFalse, h => by
    rw [nodes, List.forall_mem_cons, List.forall_mem_append, List.forall_mem_append] at h
    rw [unaliased, eval, eval, eval_unaliased condition h.2.1, eval_unaliased whenTrue h.2.2.1,
      eval_unaliased whenFalse h.2.2.2]
  | call name args, h => by
    rw [nodes, List.forall_mem_cons] at h
    obtain ⟨f, hf, hcalled, haccepts⟩ := h.1
    rw [unaliased, eval, eval, Vocabulary.findFunction?_unaliased, length_unaliasedAll,
      evalAll_unaliasedAll args h.2, Vocabulary.findFunction?_eq_some_iff.2 ⟨hf, hcalled⟩]
    dsimp only
    rw [if_pos haccepts, if_pos haccepts]
    cases hvalues : evalAll v bindings args with
    | error e => rfl
    | ok values =>
      -- The name is used only where the function has no value, which its arity excludes.
      obtain ⟨-, value, hvalue⟩ := value?_of_accepts haccepts hvalues
      rw [ok_bind, ok_bind, hvalue]

/-- Arguments whose names are resolved have the same values with and without the alias. -/
theorem evalAll_unaliasedAll : (args : List Expr) → (∀ node ∈ allNodes args, v.Resolves node) →
    evalAll v bindings (unaliasedAll v args) = evalAll v bindings args
  | [], _ => rfl
  | arg :: rest, h => by
    rw [allNodes, List.forall_mem_append] at h
    rw [unaliasedAll, evalAll, evalAll, eval_unaliased arg h.1, evalAll_unaliasedAll rest h.2]

end

/-! ### Names that stay unknown -/

/-- A call by a name with anything else before it is a call of no function. -/
theorem not_resolves_call {start : String} (hempty : start ≠ "") (halias : start ≠ "Math.")
    (f : Function) (args : List Expr) : ¬ v.Resolves (.call (start ++ f.name) args) := by
  rintro ⟨g, -, hcalled, -⟩
  rcases Function.eq_alias_of_isCalled hcalled with h | h
  · exact hempty h
  · exact halias h

/-- A variable with anything before its name is no variable. -/
theorem not_resolves_var {start : String} (hempty : start ≠ "") (x : Variable) :
    ¬ v.Resolves (.var (start ++ x.name)) := by
  rintro ⟨y, -, hname⟩
  exact hempty (Variable.eq_empty_of_name hname)

/-- Neither tree is accepted when the one has a node that is not resolved. -/
theorem check_ne_ok_of_not_resolves {tree node : Expr} (hmem : node ∈ tree.nodes)
    (h : ¬ v.Resolves node) (limits : Limits) :
    tree.check v limits ≠ .ok () ∧ (tree.unaliased v).check v limits ≠ .ok () := by
  have refused : tree.check v limits ≠ .ok () := fun hok =>
    h ((check_eq_ok_iff.1 hok).2.2 node hmem)
  refine ⟨refused, fun hok => refused ?_⟩
  rw [check_unaliased] at hok
  exact mapError_eq_ok.1 hok

/-- **The alias never matters.**  With whatever variables and functions are known: a tree is
accepted exactly when it is accepted without the alias, and is otherwise refused for the same
fault; an accepted tree comes to the same value or the same error; and no name with anything but
`Math.` before that of a function, once, is a function's, nor is one with anything before that of a
variable a variable's: trees with such names are refused, and so they are without the alias. -/
theorem alias_never_matters (v : Vocabulary) (tree : Expr) :
    (∀ limits, (tree.check v limits = .ok () ↔ (tree.unaliased v).check v limits = .ok ()) ∧
      ∀ e, tree.check v limits = .error e →
        (tree.unaliased v).check v limits = .error (e.unaliased v)) ∧
    (∀ limits, tree.check v limits = .ok () → ∀ bindings : Bindings,
      (tree.unaliased v).eval v bindings = tree.eval v bindings) ∧
    (∀ start f args, start ≠ "" → start ≠ "Math." →
      .call (start ++ Function.name f) args ∈ tree.nodes → ∀ limits,
        tree.check v limits ≠ .ok () ∧ (tree.unaliased v).check v limits ≠ .ok ()) ∧
    (∀ start x, start ≠ "" → .var (start ++ Variable.name x) ∈ tree.nodes → ∀ limits,
      tree.check v limits ≠ .ok () ∧ (tree.unaliased v).check v limits ≠ .ok ()) := by
  refine ⟨fun limits => ⟨?_, ?_⟩, ?_, ?_, ?_⟩
  · rw [check_unaliased]
    exact mapError_eq_ok.symm
  · intro e he
    rw [check_unaliased, he, mapError_error]
  · intro limits hok bindings
    exact eval_unaliased tree (check_eq_ok_iff.1 hok).2.2
  · intro start f args hempty halias hmem limits
    exact check_ne_ok_of_not_resolves hmem (not_resolves_call hempty halias f args) limits
  · intro start x hempty hmem limits
    exact check_ne_ok_of_not_resolves hmem (not_resolves_var hempty x) limits

/-- The root of `-1`, called by `Math.sqrt` as an argument of `max`. -/
def mixedRoot : Expr :=
  .call "max" [.var "ones", .call "Math.sqrt" [.unary .neg (.call "Math.abs" [.number 1])]]

/-- `max(ones, Math.sqrt(-Math.abs(1)))` fails for its root as `max(ones, sqrt(-abs(1)))` does;
`Math.max(twos)` has too few arguments by either name; and neither `Math.Math.max` nor `Math.ones`
is known. -/
theorem alias_never_matters_mixed :
    mixedRoot.unaliased .full = .call "max"
      [.var "ones", .call "sqrt" [.unary .neg (.call "abs" [.number 1])]] ∧
    (∀ bindings, (mixedRoot.unaliased .full).eval .full bindings =
      mixedRoot.eval .full bindings) ∧
    mixedRoot.eval .full (.ofPlayer .sample) = .error (.invalidOperation "sqrt" [-1]) ∧
    ((Expr.call "Math.max" [.var "twos"]).unaliased .full).check .full .standard =
      .error (.wrongArity "max" (.atLeast 2) 1) ∧
    (Expr.call "Math.Math.max" [.number 1, .number 1]).check .full .standard ≠ .ok () ∧
    (Expr.var "Math.ones").check .full .standard ≠ .ok () := by
  have accepted : mixedRoot.check .full .standard = .ok () := by decide +kernel
  have few : (Expr.call "Math.max" [.var "twos"]).check .full .standard =
      .error (.wrongArity "Math.max" (.atLeast 2) 1) := by decide +kernel
  have failing : mixedRoot.eval .full (.ofPlayer .sample) =
      .error (.invalidOperation "sqrt" [-1]) := by decide +kernel
  refine ⟨rfl, (alias_never_matters .full _).2.1 .standard accepted, failing,
    ((alias_never_matters .full _).1 .standard).2 _ few, ?_, ?_⟩
  · exact ((alias_never_matters .full _).2.2.1 "Math.Math." .max [.number 1, .number 1]
      (by decide) (by decide) List.mem_cons_self .standard).1
  · exact ((alias_never_matters .full _).2.2.2 "Math." (.rating .ones) (by decide)
      List.mem_cons_self .standard).1

end Expr
end Formula
end GuildRating
