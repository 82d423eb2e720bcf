/-
# Walks over a tree

The depth of a tree, its size and the check of its names are all worked out by walks: a visit to a
node visits what is directly below it, one after the other, and makes its own result of theirs
(`FromBelow`).  Meanwhile it is under way itself, so a walk that may have only `room` visits under
way at once, one inside the other, can fail for lack of room (`walk`).  It gets through exactly if
the room is at least the depth of the tree, whatever is worked out (`walk_eq`).  Since every level
of a tree has a node, that is no more than its size (`depth_le_size`).
-/

import GuildRating.Proofs.Check.Faults

namespace GuildRating
namespace Formula
namespace Expr

mutual

/-- **A tree has a node on each of its levels.** -/
theorem depth_le_size : (tree : Expr) → tree.depth ≤ tree.size
  | number _ | var _ => Nat.le_refl 1
  | unary _ operand => by
    have := depth_le_size operand
    rw [depth, size]
    omega
  | binary _ left right => by
    have := depth_le_size left
    have := depth_le_size right
    rw [depth, size]
    omega
  | conditional condition whenTrue whenFalse => by
    have := depth_le_size condition
    have := depth_le_size whenTrue
    have := depth_le_size whenFalse
    rw [depth, size]
    omega
  | call _ args => by
    have := deepest_le_totalSize args
    rw [depth, size]
    omega

/-- Arguments are no deeper than they have nodes together. -/
theorem deepest_le_totalSize : (args : List Expr) → deepest args ≤ totalSize args
  | [] => Nat.le_refl 0
  | arg :: rest => by
    have := depth_le_size arg
    have := deepest_le_totalSize rest
    rw [deepest, totalSize]
    omega

end

/-- What stands directly below a node. -/
def children : Expr → List Expr
  | number _ | var _ => []
  | unary _ operand => [operand]
  | binary _ left right => [left, right]
  | conditional condition whenTrue whenFalse => [condition, whenTrue, whenFalse]
  | call _ args => args

variable {α : Type} {step : Expr → List α → α} {value : Expr → α} {room : Nat}

/-- The result of a walk over the tree, each visit making its own of those below it, if at most
`room` visits may be under way at once; nothing if the walk needs more. -/
def walk (step : Expr → List α → α) : (room : Nat) → Expr → Option α
  | 0, _ => none
  | room + 1, tree => do
    let below ← tree.children.mapM (walk step room)
    return step tree below

/-- The value of a tree is made of the values of what is directly below its root. -/
def FromBelow (step : Expr → List α → α) (value : Expr → α) : Prop :=
  ∀ tree, value tree = step tree (tree.children.map value)

/-- A tree is one level deeper than the deepest of what is below its root. -/
theorem depth_eq_deepest_children (tree : Expr) : tree.depth = 1 + deepest tree.children := by
  cases tree <;> simp [depth, children, deepest, Nat.max_assoc]

/-- Walks over neighbours get through if the one over the deepest of them does. -/
theorem mapM_walk
    (h : ∀ tree, walk step room tree = if tree.depth ≤ room then some (value tree) else none)
    (args : List Expr) :
    args.mapM (walk step room) = if deepest args ≤ room then some (args.map value) else none := by
  induction args with
  | nil =>
    rw [deepest, if_pos (Nat.zero_le room)]
    rfl
  | cons arg rest ih =>
    rw [List.mapM_cons, h, ih, deepest]
    by_cases harg : arg.depth ≤ room
    · by_cases hrest : deepest rest ≤ room
      · rw [if_pos harg, if_pos hrest, if_pos (Nat.max_le.2 ⟨harg, hrest⟩)]
        rfl
      · rw [if_pos harg, if_neg hrest, if_neg (fun hmax => hrest (Nat.max_le.1 hmax).2)]
        rfl
    · rw [if_neg harg, if_neg (fun hmax => harg (Nat.max_le.1 hmax).1)]
      rfl

/-- **A walk gets through a tree exactly if the room is at least its depth.** -/
theorem walk_eq (h : FromBelow step value) (room : Nat) (tree : Expr) :
    walk step room tree = if tree.depth ≤ room then some (value tree) else none := by
  induction room generalizing tree with
  | zero => rw [walk, depth_eq_deepest_children, if_neg (by omega)]
  | succ room ih =>
    rw [walk, mapM_walk ih, depth_eq_deepest_children, h tree]
    by_cases hbelow : deepest tree.children ≤ room
    · rw [if_pos hbelow, if_pos (by omega)]
      rfl
    · rw [if_neg hbelow, if_neg (by omega)]
      rfl

/-! ### What is worked out by walks -/

/-- One level more than the deepest below. -/
def levels (_ : Expr) (below : List Nat) : Nat := 1 + below.foldr max 0

/-- One node more than all below together. -/
def count (_ : Expr) (below : List Nat) : Nat := 1 + below.foldr (· + ·) 0

/-- The first fault of several checks. -/
def firstOf (checks : List (Except CheckError Unit)) : Except CheckError Unit :=
  checks.foldr (fun found later => found >>= fun _ => later) (.ok ())

/-- The fault of the node itself, or else the first one below. -/
def firstFault (v : Vocabulary) (node : Expr) (below : List (Except CheckError Unit)) :
    Except CheckError Unit :=
  report (v.fault? node) >>= fun _ => firstOf below

/-- The depth of a tree is made of the depths below. -/
theorem fromBelow_depth : FromBelow levels depth := by
  have arguments (args : List Expr) : deepest args = (args.map depth).foldr max 0 := by
    induction args with
    | nil => rfl
    | cons arg rest ih => rw [deepest, ih, List.map_cons, List.foldr_cons]
  intro tree
  rw [depth_eq_deepest_children, arguments, levels]

/-- The size of a tree is made of the sizes below. -/
theorem fromBelow_size : FromBelow count size := by
  have arguments (args : List Expr) : totalSize args = (args.map size).foldr (· + ·) 0 := by
    induction args with
    | nil => rfl
    | cons arg rest ih => rw [totalSize, ih, List.map_cons, List.foldr_cons]
  intro tree
  cases tree <;> simp [size, count, children, arguments, Nat.add_assoc]

/-- The first fault of a tree is made of its own and the first ones below. -/
theorem fromBelow_checkNames (v : Vocabulary) : FromBelow (firstFault v) (checkNames v) := by
  have arguments (args : List Expr) :
      report ((allNodes args).findSome? v.fault?) = firstOf (args.map (checkNames v)) := by
    induction args with
    | nil => rfl
    | cons arg rest ih =>
      rw [allNodes, List.findSome?_append, report_or, ih, ← checkNames_eq_report]
      rfl
  have below (tree : Expr) : tree.nodes = tree :: allNodes tree.children := by
    cases tree <;> simp [nodes, children, allNodes]
  intro tree
  rw [firstFault, ← arguments, ← report_or, checkNames_eq_report, below, List.findSome?_cons]
  cases v.fault? tree <;> rfl

end Expr
end Formula
end GuildRating
