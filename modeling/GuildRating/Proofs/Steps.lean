/-
# Steps that may fail

Readers, checks and evaluations are steps in `Except`, joined by `>>=`.  The lemmas here say how
a join goes on after success and where it stops after an error, so that no proof has to open the
monad.  Which errors a run may end with is said by `StopsWith`.  Two runs of the same steps are
compared by `EqUnless`: they have the same outcome unless the first one stops with an error of a
given kind.
-/

import GuildRating.Text.Basic

namespace GuildRating

variable {ε ε' α β γ : Type}

@[simp] theorem ok_bind (a : α) (f : α → Except ε β) : (Except.ok a >>= f) = f a := rfl

@[simp] theorem error_bind (e : ε) (f : α → Except ε β) :
    (Except.error e >>= f) = .error e := rfl

@[simp] theorem map_ok (f : α → β) (a : α) : (Except.ok a : Except ε α).map f = .ok (f a) := rfl

@[simp] theorem map_error (f : α → β) (e : ε) :
    (Except.error e : Except ε α).map f = .error e := rfl

@[simp] theorem mapError_ok (f : ε → ε') (a : α) :
    (Except.ok a : Except ε α).mapError f = .ok a := rfl

@[simp] theorem mapError_error (f : ε → ε') (e : ε) :
    (Except.error e : Except ε α).mapError f = .error (f e) := rfl

/-- Two joined steps succeed when both do. -/
theorem bind_eq_ok {x : Except ε α} {f : α → Except ε β} {b : β} :
    x >>= f = .ok b ↔ ∃ a, x = .ok a ∧ f a = .ok b := by
  cases x with
  | error e => simp
  | ok a => simp

/-- Two changes of an error, one after the other. -/
theorem mapError_mapError {ε'' : Type} (x : Except ε α) (f : ε → ε') (g : ε' → ε'') :
    (x.mapError f).mapError g = x.mapError (g ∘ f) := by
  cases x <;> rfl

/-- A change of the error can be made before the join, to both steps. -/
theorem mapError_bind (x : Except ε α) (f : α → Except ε β) (g : ε → ε') :
    (x >>= f).mapError g = x.mapError g >>= fun a => (f a).mapError g := by
  cases x <;> rfl

/-- A change of the error leaves the values as they are. -/
theorem mapError_eq_ok {x : Except ε α} {f : ε → ε'} {a : α} :
    x.mapError f = .ok a ↔ x = .ok a := by
  cases x with
  | error e => simp
  | ok b => simp

/-- If the step stops, it does so with an error of this kind. -/
def StopsWith (P : ε → Prop) (x : Except ε α) : Prop := ∀ e, x = .error e → P e

namespace StopsWith

variable {P : ε → Prop} {x : Except ε α}

theorem ok (a : α) : StopsWith P (.ok a) := nofun

theorem error {e : ε} (h : P e) : StopsWith P (.error e : Except ε α) := by
  intro e' he
  cases he
  exact h

/-- A kind of errors can be replaced by a wider one. -/
theorem imp {Q : ε → Prop} (hx : StopsWith P x) (h : ∀ e, P e → Q e) : StopsWith Q x :=
  fun e he => h e (hx e he)

/-- Joined steps stop with errors of a kind if both of them do. -/
theorem bind {f : α → Except ε β} (hx : StopsWith P x)
    (hf : ∀ a, x = .ok a → StopsWith P (f a)) : StopsWith P (x >>= f) := by
  intro e h
  cases x with
  | error e' =>
    rw [error_bind] at h
    exact hx e (by rw [Except.error.inj h])
  | ok a => exact hf a rfl e h

/-- Changing the error changes its kind. -/
theorem mapError {Q : ε' → Prop} {f : ε → ε'} (hx : StopsWith P x) (hf : ∀ e, P e → Q (f e)) :
    StopsWith Q (x.mapError f) := by
  intro e h
  cases x with
  | error e' =>
    cases h
    exact hf e' (hx e' rfl)
  | ok a => cases h

/-- Whatever the step stops with, the changed error is of this kind. -/
theorem of_mapError {Q : ε' → Prop} {f : ε → ε'} (x : Except ε α) (hf : ∀ e, Q (f e)) :
    StopsWith Q (x.mapError f) :=
  mapError (P := fun _ => True) (fun _ _ => trivial) fun e _ => hf e

end StopsWith

/-- Two steps have the same outcome, unless the first one stops with an error of this kind. -/
def EqUnless (P : ε → Prop) (x y : Except ε α) : Prop := x = y ∨ ∃ e, P e ∧ x = .error e

namespace EqUnless

variable {P : ε → Prop} {x y : Except ε α}

theorem rfl : EqUnless P x x := .inl (Eq.refl x)

theorem stopped {e : ε} (h : P e) : EqUnless P (.error e) y := .inr ⟨e, h, Eq.refl _⟩

/-- Joined steps have the same outcome unless one of the first two stops. -/
theorem bind {f g : α → Except ε β} (h : EqUnless P x y)
    (hfg : ∀ a, x = .ok a → EqUnless P (f a) (g a)) : EqUnless P (x >>= f) (y >>= g) := by
  rcases h with rfl | ⟨e, he, rfl⟩
  · cases x with
    | error e => exact .rfl
    | ok a => exact hfg a (Eq.refl _)
  · exact stopped he

/-- A change of the error leaves equal outcomes equal. -/
theorem mapError {Q : ε' → Prop} {f : ε → ε'} (h : EqUnless P x y) (hf : ∀ e, P e → Q (f e)) :
    EqUnless Q (x.mapError f) (y.mapError f) := by
  rcases h with rfl | ⟨e, he, rfl⟩
  · exact .rfl
  · exact stopped (hf e he)

/-- A success stays the same. -/
theorem eq_ok {a : α} (h : EqUnless P x y) (hx : x = .ok a) : y = .ok a := by
  rcases h with rfl | ⟨e, -, rfl⟩
  · exact hx
  · cases hx

end EqUnless

/-- A reading as a pair: its value and its rest, without the proof that the rest is shorter. -/
def Front.pair {input : List α} (front : Front input β) : β × List α := (front.value, front.rest)

@[simp] theorem Front.pair_mk {input : List α} (value : β) (rest : List α)
    (h : rest.length < input.length) : Front.pair ⟨value, rest, h⟩ = (value, rest) := rfl

/-- The rest of a reading is shorter, also when it is looked at as a pair. -/
theorem Front.shorter_of_pair {input rest : List α} {b : β} {x : Except ε (Front input β)}
    (h : x.map Front.pair = .ok (b, rest)) : rest.length < input.length := by
  cases x with
  | error e => cases h
  | ok front =>
    cases h
    exact front.shorter

end GuildRating
