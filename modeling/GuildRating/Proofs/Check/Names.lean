/-
# Names that a vocabulary knows

A variable is found under its own name, and a function under its own name or under that name after
`Math.`, when the vocabulary has them.  No two variables and no two functions share a name and no
function's own name starts with `Math.`, so a name stands for one thing at most.
-/

import GuildRating.Formula.Vocabulary

namespace GuildRating
namespace Formula

namespace Variable

/-- No variable is left out of the list of all. -/
theorem mem_all (x : Variable) : x ∈ all := by
  rcases x with p | p | _
  · cases p <;> decide
  · cases p <;> decide
  · decide

/-- No two variables share a name. -/
theorem eq_of_name_eq {x y : Variable} (h : x.name = y.name) : x = y := by
  have distinct : ∀ x ∈ all, ∀ y ∈ all, x.name = y.name → x = y := by decide
  exact distinct x (mem_all x) y (mem_all y) h

end Variable

namespace Function

/-- No two functions share a name. -/
theorem eq_of_name_eq {f g : Function} (h : f.name = g.name) : f = g := by
  cases f <;> cases g <;> first | rfl | exact absurd h (by decide)

/-- The own name of a function does not begin with the alias. -/
theorem take_name_ne (f : Function) : f.name.toList.take mathAlias.length ≠ mathAlias := by
  cases f <;> decide

/-- Called by this name, the function is meant: by its own or by its own after `Math.`. -/
def IsCalled (f : Function) (name : String) : Prop := name = f.name ∨ name = "Math." ++ f.name

instance (f : Function) (name : String) : Decidable (f.IsCalled name) :=
  inferInstanceAs (Decidable (_ ∨ _))

end Function

theorem toList_alias (name : String) : ("Math." ++ name).toList = mathAlias ++ name.toList :=
  String.toList_append

/-- A name is bared of `Math.` once. -/
theorem bareName_eq_iff {f : Function} {name : String} :
    f.name = bareName name ↔ f.IsCalled name := by
  unfold bareName Function.IsCalled
  dsimp only
  split
  · next hstart =>
    have split : name.toList = mathAlias ++ name.toList.drop mathAlias.length :=
      calc name.toList
        _ = name.toList.take mathAlias.length ++ name.toList.drop mathAlias.length :=
          (List.take_append_drop _ _).symm
        _ = mathAlias ++ name.toList.drop mathAlias.length := by rw [hstart]
    constructor
    · intro h
      refine .inr (String.toList_inj.1 ?_)
      rw [h, toList_alias, String.toList_ofList, ← split]
    · rintro (rfl | rfl)
      · exact absurd hstart f.take_name_ne
      · rw [toList_alias, List.drop_left, String.ofList_toList]
  · next hstart =>
    constructor
    · intro h
      exact .inl h.symm
    · rintro (rfl | rfl)
      · rfl
      · rw [toList_alias, List.take_left] at hstart
        exact absurd rfl hstart

/-- Where one thing at most fits, the search finds it. -/
theorem find?_eq_some_of_unique {α : Type} {p : α → Bool} {xs : List α} {x : α} (hx : x ∈ xs)
    (hp : p x = true) (unique : ∀ y, p y = true → y = x) : xs.find? p = some x := by
  obtain ⟨y, hy⟩ := Option.isSome_iff_exists.1 (List.find?_isSome.2 ⟨x, hx, hp⟩)
  rw [hy, unique y (List.find?_some hy)]

namespace Vocabulary

variable {v : Vocabulary} {name : String}

/-- A variable is found under its own name, if the vocabulary has it. -/
theorem findVariable?_eq_some_iff {x : Variable} :
    v.findVariable? name = some x ↔ x ∈ v.knownVariables ∧ x.name = name := by
  constructor
  · intro h
    exact ⟨List.mem_of_find?_eq_some h, by simpa using List.find?_some h⟩
  · rintro ⟨hx, rfl⟩
    exact find?_eq_some_of_unique hx (decide_eq_true rfl) fun y hy =>
      Variable.eq_of_name_eq (of_decide_eq_true hy)

/-- A function is found under the names it is called by, if the vocabulary has it. -/
theorem findFunction?_eq_some_iff {f : Function} :
    v.findFunction? name = some f ↔ f ∈ v.knownFunctions ∧ f.IsCalled name := by
  constructor
  · intro h
    exact ⟨List.mem_of_find?_eq_some h, bareName_eq_iff.1 (by simpa using List.find?_some h)⟩
  · rintro ⟨hf, hname⟩
    have bare := bareName_eq_iff.2 hname
    exact find?_eq_some_of_unique hf (decide_eq_true bare) fun g hg =>
      Function.eq_of_name_eq ((of_decide_eq_true hg).trans bare.symm)

/-- No variable is found for a name that none of the vocabulary has. -/
theorem findVariable?_eq_none_iff :
    v.findVariable? name = none ↔ ∀ x ∈ v.knownVariables, x.name ≠ name := by
  rw [findVariable?, List.find?_eq_none]
  simp only [decide_eq_true_eq, ne_eq]

/-- No function is found for a name that none of the vocabulary is called by. -/
theorem findFunction?_eq_none_iff :
    v.findFunction? name = none ↔ ∀ f ∈ v.knownFunctions, ¬ f.IsCalled name := by
  rw [findFunction?, List.find?_eq_none]
  simp only [decide_eq_true_eq, bareName_eq_iff]

end Vocabulary
end Formula
end GuildRating
