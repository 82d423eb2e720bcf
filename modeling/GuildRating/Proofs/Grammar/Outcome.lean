/-
# What becomes of a reader

A reader reads a phrase up to a token that it does not look beyond, or it reads a phrase to the end
of the row; or it blames a token, and then the tokens before it begin a phrase; or the row ends
while it begins a phrase; or there is no room (`Reading`).  Where a token stops the reader the
outcome is the same whatever stands behind that token, so that readings can be joined
(`Reading.bind`): the second reader sees the same first token.
-/

import GuildRating.Proofs.Grammar.Reading

namespace GuildRating
namespace Formula
namespace Expr

/-- The error is that this token cannot stand here. -/
def Blames (token : Token) (e : GrammarError) : Prop :=
  ∃ expected, e = .unexpected token.pos expected (some token.lexeme)

/-- What becomes of reading a phrase off the row, if `unfinished` are the errors of rows that end
too early.  The reader is told where the formula ends. -/
inductive Reading {β : Type} (phrase : List Token → Prop)
    (unfinished : List Token → GrammarError → Prop)
    (read : Nat → List Token → Except GrammarError (β × List Token)) (endPos : Nat)
    (tokens : List Token) : Prop
  /-- What stands behind `token` does not matter. -/
  | upTo {taken later : List Token} {token : Token} {value : β} :
      tokens = taken ++ token :: later → phrase taken →
      (∀ endPos later, read endPos (taken ++ token :: later) = .ok (value, token :: later)) →
      Reading phrase unfinished read endPos tokens
  | whole {value : β} : phrase tokens → read endPos tokens = .ok (value, []) →
      Reading phrase unfinished read endPos tokens
  /-- What stands behind `token` does not matter. -/
  | blamed {before later more : List Token} {token : Token} {e : GrammarError} :
      tokens = before ++ token :: later → phrase (before ++ more) → Blames token e →
      (∀ endPos later, read endPos (before ++ token :: later) = .error e) →
      Reading phrase unfinished read endPos tokens
  | ended {more : List Token} {e : GrammarError} : phrase (tokens ++ more) →
      unfinished tokens e → read endPos tokens = .error e →
      Reading phrase unfinished read endPos tokens
  | tooDeep {limit : Nat} : read endPos tokens = .error (.tooDeep limit) →
      Reading phrase unfinished read endPos tokens

variable {β γ : Type} {endPos : Nat} {tokens : List Token} {token : Token}
  {phrase phrase₁ phrase₂ : List Token → Prop}
  {unfinished unfinished₁ unfinished₂ : List Token → GrammarError → Prop}
  {read read₁ : Nat → List Token → Except GrammarError (β × List Token)}

/-- The first token of a row stays when the row is continued otherwise behind a later token. -/
theorem exists_cons_of_append {token token' : Token} {before later rest : List Token}
    (h : token :: rest = before ++ token' :: later) (later' : List Token) :
    ∃ rest', before ++ token' :: later' = token :: rest' := by
  cases before with
  | nil =>
    cases h
    exact ⟨later', rfl⟩
  | cons d before =>
    cases h
    exact ⟨_, rfl⟩

namespace Reading

/-- Readers that agree on the rows with this first token. -/
theorem congr (h : Reading phrase unfinished read₁ endPos tokens)
    (hread : ∀ endPos tokens', tokens'.head? = tokens.head? →
      read endPos tokens' = read₁ endPos tokens') :
    Reading phrase unfinished read endPos tokens := by
  have head {taken later later' : List Token} {token : Token}
      (h : tokens = taken ++ token :: later) :
      (taken ++ token :: later').head? = tokens.head? := by
    rw [h, List.head?_append, List.head?_append]
    rfl
  cases h with
  | @upTo taken _ token value htokens hphrase hok =>
    have stable (endPos : Nat) (later : List Token) :
        read endPos (taken ++ token :: later) = .ok (value, token :: later) := by
      rw [hread endPos _ (head htokens), hok]
    exact .upTo htokens hphrase stable
  | whole hphrase hok => exact .whole hphrase (by rw [hread endPos _ rfl, hok])
  | blamed htokens hphrase hblames herror =>
    refine .blamed htokens hphrase hblames fun endPos later => ?_
    rw [hread endPos _ (head htokens), herror]
  | ended hphrase hends herror => exact .ended hphrase hends (by rw [hread endPos _ rfl, herror])
  | tooDeep hdeep => exact .tooDeep (by rw [hread endPos _ rfl, hdeep])

/-- What is read as a phrase of one sort is a phrase of another one. -/
theorem mono (h : Reading phrase₁ unfinished₁ read endPos tokens)
    (hphrase : ∀ row, phrase₁ row → phrase row)
    (hends : ∀ e, unfinished₁ tokens e → unfinished tokens e) :
    Reading phrase unfinished read endPos tokens := by
  cases h with
  | upTo htokens htaken hok => exact .upTo htokens (hphrase _ htaken) hok
  | whole hwhole hok => exact .whole (hphrase _ hwhole) hok
  | blamed htokens hbegun hblames herror => exact .blamed htokens (hphrase _ hbegun) hblames herror
  | ended hbegun he herror => exact .ended (hphrase _ hbegun) (hends _ he) herror
  | tooDeep hdeep => exact .tooDeep hdeep

/-- The reader takes the first token and leaves the rest to another one. -/
theorem cons
    (hread : ∀ endPos tokens, read endPos (token :: tokens) = read₁ endPos tokens)
    (h : Reading (fun row => phrase (token :: row)) (fun row => unfinished (token :: row)) read₁
      endPos tokens) :
    Reading phrase unfinished read endPos (token :: tokens) := by
  cases h with
  | @upTo taken _ next value htokens htaken hok =>
    have stable (endPos : Nat) (later : List Token) :
        read endPos ((token :: taken) ++ next :: later) = .ok (value, next :: later) := by
      rw [List.cons_append, hread, hok]
    exact .upTo (by rw [htokens, List.cons_append]) htaken stable
  | whole hwhole hok => exact .whole hwhole (by rw [hread, hok])
  | @blamed before _ more _ _ htokens hbegun hblames herror =>
    have hbegun' : phrase ((token :: before) ++ more) := hbegun
    refine .blamed (by rw [htokens, List.cons_append]) hbegun' hblames fun endPos later => ?_
    rw [List.cons_append, hread, herror]
  | @ended more _ hbegun he herror =>
    have hbegun' : phrase ((token :: tokens) ++ more) := hbegun
    exact .ended hbegun' he (by rw [hread, herror])
  | tooDeep hdeep => exact .tooDeep (by rw [hread, hdeep])

/-- **Readings are joined.**  The second reader goes on where the first one stopped, and what it
reads makes a larger phrase of what the first one read. -/
theorem bind {read : Nat → List Token → Except GrammarError (γ × List Token)}
    {read₂ : Nat → β × List Token → Except GrammarError (γ × List Token)}
    (hread : ∀ endPos tokens, read endPos tokens = (read₁ endPos tokens >>= read₂ endPos))
    (h : Reading phrase₁ unfinished₁ read₁ endPos tokens)
    (hnext : ∀ value rest, read₁ endPos tokens = .ok (value, rest) →
      Reading phrase₂ unfinished₂ (fun endPos rest => read₂ endPos (value, rest)) endPos rest)
    (hphrase : ∀ taken row, phrase₁ taken → phrase₂ row → phrase (taken ++ row))
    (hsome : ∃ row, phrase₂ row) (hends₁ : ∀ e, unfinished₁ tokens e → unfinished tokens e)
    (hends₂ : ∀ taken rest e, phrase₁ taken → unfinished₂ rest e → unfinished (taken ++ rest) e) :
    Reading phrase unfinished read endPos tokens := by
  cases h with
  | @upTo taken later token value htokens htaken hok =>
    subst htokens
    -- the first reader stops at `token` whatever the second one finds behind it
    have joined (endPos : Nat) {rest : List Token} (h : ∃ later, rest = token :: later) :
        read endPos (taken ++ rest) = read₂ endPos (value, rest) := by
      obtain ⟨later, rfl⟩ := h
      rw [hread, hok, ok_bind]
    cases hnext value _ (hok endPos later) with
    | @upTo taken' later' token' value' hrest htaken' hok' =>
      have split : taken ++ token :: later = (taken ++ taken') ++ token' :: later' := by
        rw [hrest, List.append_assoc]
      have stable (endPos : Nat) (later : List Token) :
          read endPos ((taken ++ taken') ++ token' :: later) = .ok (value', token' :: later) := by
        rw [List.append_assoc, joined endPos (exists_cons_of_append hrest later), hok']
      exact .upTo split (hphrase _ _ htaken htaken') stable
    | whole hwhole hok' =>
      exact .whole (hphrase _ _ htaken hwhole) (by rw [joined endPos ⟨_, rfl⟩, hok'])
    | @blamed before' later' more token' e hrest hbegun hblames herror =>
      have split : taken ++ token :: later = (taken ++ before') ++ token' :: later' := by
        rw [hrest, List.append_assoc]
      have hbegun' := hphrase _ _ htaken hbegun
      rw [← List.append_assoc] at hbegun'
      refine .blamed split hbegun' hblames fun endPos later => ?_
      rw [List.append_assoc, joined endPos (exists_cons_of_append hrest later), herror]
    | ended hbegun he herror =>
      have hbegun' := hphrase _ _ htaken hbegun
      rw [← List.append_assoc] at hbegun'
      exact .ended hbegun' (hends₂ _ _ _ htaken he) (by rw [joined endPos ⟨_, rfl⟩, herror])
    | tooDeep hdeep => exact .tooDeep (by rw [joined endPos ⟨_, rfl⟩, hdeep])
  | @whole value hwhole hok =>
    have joined : read endPos tokens = read₂ endPos (value, []) := by rw [hread, hok, ok_bind]
    cases hnext value [] hok with
    | upTo hrest _ _ => simp at hrest
    | whole hwhole' hok' =>
      have := hphrase _ _ hwhole hwhole'
      rw [List.append_nil] at this
      exact .whole this (by rw [joined, hok'])
    | blamed hrest _ _ _ => simp at hrest
    | ended hbegun he herror =>
      have hends := hends₂ _ _ _ hwhole he
      rw [List.append_nil] at hends
      exact .ended (hphrase _ _ hwhole hbegun) hends (by rw [joined, herror])
    | tooDeep hdeep => exact .tooDeep (by rw [joined, hdeep])
  | blamed htokens hbegun hblames herror =>
    -- the second reader is never asked, so any phrase of its sort completes the row
    obtain ⟨row, hrow⟩ := hsome
    have hbegun' := hphrase _ _ hbegun hrow
    rw [List.append_assoc] at hbegun'
    refine .blamed htokens hbegun' hblames fun endPos later => ?_
    rw [hread, herror, error_bind]
  | ended hbegun he herror =>
    obtain ⟨row, hrow⟩ := hsome
    have hbegun' := hphrase _ _ hbegun hrow
    rw [List.append_assoc] at hbegun'
    exact .ended hbegun' (hends₁ _ he) (by rw [hread, herror, error_bind])
  | tooDeep hdeep => exact .tooDeep (by rw [hread, hdeep, error_bind])

/-- The reader takes nothing more. -/
theorem stop (value : β) (h : phrase [])
    (hread : ∀ endPos tokens', tokens'.head? = tokens.head? →
      read endPos tokens' = .ok (value, tokens')) :
    Reading phrase unfinished read endPos tokens := by
  cases tokens with
  | nil => exact .whole h (hread endPos [] rfl)
  | cons token tokens => exact .upTo rfl h fun endPos later => hread endPos (token :: later) rfl

/-- The reader makes something else of the value. -/
theorem map {read : Nat → List Token → Except GrammarError (γ × List Token)} (f : β → γ)
    (hread : ∀ endPos tokens, read endPos tokens =
      (read₁ endPos tokens >>= fun r => pure (f r.1, r.2)))
    (h : Reading phrase₁ unfinished₁ read₁ endPos tokens)
    (hphrase : ∀ row, phrase₁ row → phrase row)
    (hends : ∀ e, unfinished₁ tokens e → unfinished tokens e) :
    Reading phrase unfinished read endPos tokens := by
  have pass (value : β) (rest : List Token) : Reading (fun row => row = []) (fun _ _ => False)
      (fun _ rest => (pure (f value, rest) : Except GrammarError (γ × List Token))) endPos rest :=
    stop (f value) rfl fun _ _ _ => rfl
  refine bind hread h (fun value rest _ => pass value rest) ?_ ⟨[], rfl⟩ hends ?_
  · rintro taken _ htaken rfl
    rw [List.append_nil]
    exact hphrase taken htaken
  · exact fun _ _ _ _ => False.elim

/-- The reader refuses its first token, or that there is none. -/
theorem unexpected (limit : Nat) (expected : Expected) {more : List Token} (h : phrase more)
    (hread : ∀ endPos tokens', tokens'.head? = tokens.head? →
      read endPos tokens' = .error (Frame.unexpected ⟨endPos, limit⟩ expected tokens'))
    (hends : unfinished [] (.unexpected endPos expected none)) :
    Reading phrase unfinished read endPos tokens := by
  cases tokens with
  | nil => exact .ended h hends (hread endPos [] rfl)
  | cons token tokens =>
    have hbegun : phrase ([] ++ more) := h
    exact .blamed rfl hbegun ⟨expected, rfl⟩ fun endPos later => hread endPos (token :: later) rfl

end Reading

end Expr
end Formula
end GuildRating
