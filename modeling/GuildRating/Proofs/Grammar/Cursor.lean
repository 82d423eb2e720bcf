/-
# Reading with a cursor

The readers of a formula hand on the rest of the tokens and the room that is left.  Here they are
written once more as actions on counters that go up and down: a cursor into the row, stepped back on
one path, and a depth, entered before the room is looked at and left after every reading that was
let in.  Everything that could go wrong with counters is an outcome of its own (`Fault`): one that
would fall below zero, and a recursion that outlives its fuel.  An action keeps a trail of all
places that it passes.

`Reads` says that an action ends as a reader does, with the counters back where they have to be and
every place on its trail within bounds.  It is put together along `>>=` (`Reads.bind`) and around a
nested reading (`reads_nested`).
-/

import GuildRating.Proofs.Grammar.Reading

namespace GuildRating
namespace Formula
namespace Cursor

open Formula.Expr

/-- Where a reading stands. -/
structure Place where
  /-- How many tokens lie behind. -/
  cursor : Nat
  /-- The levels of nesting entered, the last one perhaps in vain. -/
  depth : Nat
  /-- The expressions and operands of unary operators that have passed their depth check and have
  not ended. -/
  running : Nat
deriving DecidableEq

/-- A place and the places passed, the latest one first. -/
structure State where
  place : Place
  trail : List Place

/-- What must not happen. -/
inductive Fault where
  /-- A counter would fall below zero. -/
  | underflow
  | exhausted
deriving DecidableEq

/-- An action ends in a state, with a value or a complaint about the formula, or in a fault. -/
def Action (α : Type) : Type := State → Except Fault (Except GrammarError α × State)

variable {α β : Type}

instance : Monad Action where
  pure value := fun s => .ok (.ok value, s)
  bind action next := fun s =>
    match action s with
    | .ok (.ok value, s') => next value s'
    | .ok (.error e, s') => .ok (.error e, s')
    | .error fault => .error fault

/-! ### Counters -/

/-- Ends in a fault. -/
def fail (fault : Fault) : Action α := fun _ => .error fault

/-- Stops with a complaint about the formula. -/
def complain (e : GrammarError) : Action α := fun s => .ok (.error e, s)

/-- A complaint of the action becomes its value, and what follows goes on. -/
def attempt (action : Action α) : Action (Except GrammarError α) := fun s =>
  match action s with
  | .ok (outcome, s') => .ok (.ok outcome, s')
  | .error fault => .error fault

/-- The place where the reading stands. -/
def here : Action Place := fun s => .ok (.ok s.place, s)

/-- The state at another place, which goes on the trail. -/
def State.moveTo (s : State) (place : Place) : State := ⟨place, place :: s.trail⟩

/-- Goes to another place. -/
def moveTo (place : Place) : Action Unit := fun s => .ok (.ok (), s.moveTo place)

/-- Goes one token on. -/
def step : Action Unit := do
  let place ← here
  moveTo { place with cursor := place.cursor + 1 }

/-- Goes one token back, which is a fault at the start of the row. -/
def stepBack : Action Unit := do
  let place ← here
  match place.cursor with
  | 0 => fail .underflow
  | cursor + 1 => moveTo { place with cursor := cursor }

/-- Goes one level down; the check comes after. -/
def enter (limit : Nat) : Action Unit := do
  let place ← here
  moveTo { place with depth := place.depth + 1 }
  if limit < place.depth + 1 then complain (.tooDeep limit)
  else moveTo { place with depth := place.depth + 1, running := place.running + 1 }

/-- Goes one level up, which is a fault at the outermost one. -/
def leave : Action Unit := do
  let place ← here
  match place.depth with
  | 0 => fail .underflow
  | depth + 1 => moveTo { place with depth := depth, running := place.running - 1 }

/-- A reading one level down: left again whatever it ends with, unless it was not let in. -/
def nested (limit : Nat) (body : Action α) : Action α := do
  enter limit
  let outcome ← attempt body
  leave
  match outcome with
  | .ok value => return value
  | .error e => complain e

/-! ### Readers -/

section
variable (tokens : List Token)

/-- The next token, if there is one. -/
def peek : Action (Option Token) := do
  let place ← here
  return tokens[place.cursor]?

/-- Steps over the next token, if there is one. -/
def advance : Action (Option Token) := do
  match ← peek tokens with
  | some token => do
    step
    return some token
  | none => return none

/-- Steps over the symbol if it is next. -/
def eat (symbol : Symbol) : Action Bool := do
  if (← peek tokens).map Token.lexeme = some (.symbol symbol) then do
    step
    return true
  else return false

/-- Complains about the next token, or about the end of the row. -/
def unexpected (expected : Expected) : Action α := do
  match ← peek tokens with
  | some token => complain (.unexpected token.pos expected (some token.lexeme))
  | none => complain (.unexpected (endOf tokens) expected none)

/-- Steps over a closing parenthesis, or complains that the one at a place is not closed. -/
def closeParen (opened : Nat) : Action Unit := do
  if ← eat tokens .closeParen then return ()
  else
    match ← peek tokens with
    | none => complain (.unbalanced opened)
    | some _ => unexpected tokens .closeParen

variable (limit : Nat)

mutual

/-- Reads an expression, one level down. -/
def expression : Nat → Action Expr
  | 0 => fail .exhausted
  | fuel + 1 => nested limit (ternary fuel)
termination_by structural fuel => fuel

/-- Reads an operation and, behind a question mark, both branches. -/
def ternary : Nat → Action Expr
  | 0 => fail .exhausted
  | fuel + 1 => do
    let condition ← binary fuel 0
    if ← eat tokens .question then do
      let whenTrue ← expression fuel
      if ← eat tokens .colon then do
        let whenFalse ← expression fuel
        return .conditional condition whenTrue whenFalse
      else unexpected tokens .colon
    else return condition
termination_by structural fuel => fuel

/-- Operands joined by operators of this level and closer ones. -/
def binary : Nat → Nat → Action Expr
  | 0, _ => fail .exhausted
  | fuel + 1, level =>
    if level = BinaryOp.levels then unary fuel
    else do
      let left ← binary fuel (level + 1)
      chain fuel level left
termination_by structural fuel _ => fuel

/-- The loop over the operators of a level. -/
def chain : Nat → Nat → Expr → Action Expr
  | 0, _, _ => fail .exhausted
  | fuel + 1, level, left => do
    match (← peek tokens).bind fun token => operatorAt? level token.lexeme with
    | none => return left
    | some op => do
      step
      let right ← binary fuel (level + 1)
      chain fuel level (.binary op left right)
termination_by structural fuel _ _ => fuel

/-- Reads an operand: an atom, or one level down what stands behind a unary operator. -/
def unary : Nat → Action Expr
  | 0 => fail .exhausted
  | fuel + 1 => do
    match (← peek tokens).bind fun token => unaryOp? token.lexeme with
    | none => atom fuel
    | some op => do
      step
      let operand ← nested limit (unary fuel)
      return .unary op operand
termination_by structural fuel => fuel

/-- A token that starts no atom is stepped over and back again. -/
def atom : Nat → Action Expr
  | 0 => fail .exhausted
  | fuel + 1 => do
    match ← advance tokens with
    | none => unexpected tokens .operand
    | some ⟨.number value, _⟩ => return .number value
    | some ⟨.name name, pos⟩ =>
      if ← eat tokens .openParen then do
        let args ← arguments fuel pos
        return .call name args
      else return .var name
    | some ⟨.symbol .openParen, pos⟩ => do
      let inner ← expression fuel
      closeParen tokens pos
      return inner
    | some _ => do
      stepBack
      unexpected tokens .operand
termination_by structural fuel => fuel

/-- Reads the arguments of a call up to its parenthesis. -/
def arguments : Nat → Nat → Action (List Expr)
  | 0, _ => fail .exhausted
  | fuel + 1, pos => do
    if ← eat tokens .closeParen then return []
    else argumentsFrom fuel pos
termination_by structural fuel _ => fuel

/-- The loop over the arguments. -/
def argumentsFrom : Nat → Nat → Action (List Expr)
  | 0, _ => fail .exhausted
  | fuel + 1, pos => do
    let arg ← expression fuel
    if ← eat tokens .comma then do
      let others ← argumentsFrom fuel pos
      return arg :: others
    else do
      closeParen tokens pos
      return [arg]
termination_by structural fuel _ => fuel

end

end

/-! ### What an action keeps -/

section
variable {tokens : List Token} {limit : Nat} {s s' s'' : State} {action : Action α}
variable {e : GrammarError}

/-- After a value the next action goes on with it. -/
theorem bind_of_ok {value : α} (h : action s = .ok (.ok value, s')) (next : α → Action β) :
    (action >>= next) s = next value s' := by
  simp only [Bind.bind, h]

/-- After a complaint the next action does not begin. -/
theorem bind_of_error (h : action s = .ok (.error e, s')) (next : α → Action β) :
    (action >>= next) s = .ok (.error e, s') := by
  simp only [Bind.bind, h]

/-- A place within bounds, for a reading that starts at another one. -/
structure InBounds (tokens : List Token) (limit : Nat) (start place : Place) : Prop where
  cursor : place.cursor ≤ tokens.length
  depth : place.depth ≤ limit + 1
  running : start.depth + place.running ≤ limit + start.running

/-- What the second state keeps of the first one, its depth being `extra` more. -/
structure Kept (tokens : List Token) (limit extra : Nat) (s s' : State) : Prop where
  cursor : s'.place.cursor ≤ tokens.length
  depth : s'.place.depth = s.place.depth + extra
  running : s'.place.running = s.place.running
  trail : ∀ place ∈ s'.trail, place ∈ s.trail ∨ InBounds tokens limit s.place place

/-- A state keeps what it is. -/
theorem Kept.rfl (h : s.place.cursor ≤ tokens.length) : Kept tokens limit 0 s s :=
  ⟨h, Eq.refl _, Eq.refl _, fun _ hplace => .inl hplace⟩

/-- What is kept twice is kept. -/
theorem Kept.trans {extra : Nat} (h : Kept tokens limit 0 s s')
    (h' : Kept tokens limit extra s' s'') : Kept tokens limit extra s s'' := by
  refine ⟨h'.cursor, by rw [h'.depth, h.depth, Nat.add_zero], h'.running.trans h.running, ?_⟩
  intro place hplace
  rcases h'.trail place hplace with hplace | ⟨cursor, depth, running⟩
  · exact h.trail place hplace
  · rw [h.depth, h.running] at running
    exact .inr ⟨cursor, depth, running⟩

/-- How much deeper than it started a reading ends: a level that was entered in vain is not left. -/
def overshoot (limit : Nat) (e : GrammarError) : Nat := if e = .tooDeep limit then 1 else 0

/-- The action ends as the reading does, and keeps what is to be kept. -/
inductive Reads (tokens : List Token) (limit : Nat) (action : Action α) (s : State) :
    Except GrammarError (α × List Token) → Prop where
  | ok {value : α} {s' : State} : action s = .ok (.ok value, s') → Kept tokens limit 0 s s' →
      Reads tokens limit action s (.ok (value, tokens.drop s'.place.cursor))
  | error {e : GrammarError} {s' : State} : action s = .ok (.error e, s') →
      Kept tokens limit (overshoot limit e) s s' → Reads tokens limit action s (.error e)

/-- An action that does nothing reads nothing. -/
theorem reads_pure (h : s.place.cursor ≤ tokens.length) (value : α) :
    Reads tokens limit (pure value) s (.ok (value, tokens.drop s.place.cursor)) :=
  .ok rfl (.rfl h)

/-- A complaint, unless it is about the depth, ends where it is made. -/
theorem reads_complain (h : s.place.cursor ≤ tokens.length) (he : e ≠ .tooDeep limit) :
    Reads tokens limit (complain e : Action α) s (.error e) := by
  refine .error rfl ?_
  rw [overshoot, if_neg he]
  exact .rfl h

/-- An action that comes to another one reads as that does. -/
theorem Reads.of_kept {action' : Action α} {reading : Except GrammarError (α × List Token)}
    (hrun : action s = action' s') (hkept : Kept tokens limit 0 s s')
    (h : Reads tokens limit action' s' reading) : Reads tokens limit action s reading := by
  cases h with
  | ok hend hkept' => exact .ok (hrun.trans hend) (hkept.trans hkept')
  | error hend hkept' => exact .error (hrun.trans hend) (hkept.trans hkept')

/-- So does one that comes to it without a step. -/
theorem Reads.of_eq {action' : Action α} {reading : Except GrammarError (α × List Token)}
    (hrun : action s = action' s) (h : Reads tokens limit action' s reading) :
    Reads tokens limit action s reading := by
  cases h with
  | ok hend hkept => exact .ok (hrun.trans hend) hkept
  | error hend hkept => exact .error (hrun.trans hend) hkept

/-- **Joined actions read as joined readers.** -/
theorem Reads.bind {next : α → Action β} {reading : Except GrammarError (α × List Token)}
    {reader : α × List Token → Except GrammarError (β × List Token)}
    (h : Reads tokens limit action s reading)
    (hnext : ∀ value s', reading = .ok (value, tokens.drop s'.place.cursor) →
      Kept tokens limit 0 s s' →
      Reads tokens limit (next value) s' (reader (value, tokens.drop s'.place.cursor))) :
    Reads tokens limit (action >>= next) s (reading >>= reader) := by
  cases h with
  | @ok value s' hend hkept =>
    exact .of_kept (bind_of_ok hend next) hkept (hnext value s' rfl hkept)
  | error hend hkept => exact .error (bind_of_error hend next) hkept

/-- A reading that stops is not gone on with. -/
theorem Reads.bind_error {next : α → Action β} (h : Reads tokens limit action s (.error e)) :
    Reads tokens limit (action >>= next) s (.error e) := by
  cases h with
  | error hend hkept => exact .error (bind_of_error hend next) hkept

/-! ### Steps -/

/-- The state one token on. -/
def State.forward (s : State) : State := s.moveTo { s.place with cursor := s.place.cursor + 1 }

/-- Before a token the cursor is on the row. -/
theorem lt_of_drop {token : Token} {later : List Token} {cursor : Nat}
    (h : tokens.drop cursor = token :: later) : cursor < tokens.length := by
  refine Nat.lt_of_not_le fun hle => ?_
  rw [List.drop_eq_nil_of_le hle] at h
  cases h

/-- One token on, the later tokens are ahead. -/
theorem drop_succ {token : Token} {later : List Token} {cursor : Nat}
    (h : tokens.drop cursor = token :: later) : tokens.drop (cursor + 1) = later := by
  rw [← List.drop_drop, h]
  rfl

/-- Moving the cursor within the row keeps within bounds. -/
theorem kept_moveTo {cursor : Nat} (h : cursor ≤ tokens.length) (hdepth : s.place.depth ≤ limit) :
    Kept tokens limit 0 s (s.moveTo { s.place with cursor := cursor }) := by
  refine ⟨h, rfl, rfl, fun place hplace => ?_⟩
  rcases List.mem_cons.1 hplace with rfl | hplace
  · exact .inr ⟨h, Nat.le_succ_of_le hdepth, Nat.add_le_add_right hdepth _⟩
  · exact .inl hplace

/-- So does going one token on. -/
theorem kept_forward (h : s.place.cursor < tokens.length) (hdepth : s.place.depth ≤ limit) :
    Kept tokens limit 0 s s.forward :=
  kept_moveTo h hdepth

theorem step_bind (f : Unit → Action α) : (step >>= f) s = f () s.forward := rfl

theorem stepBack_bind (f : Unit → Action α) :
    (stepBack >>= f) s.forward = f () (s.forward.moveTo s.place) := rfl

/-- What goes on after a look goes on with the first of the tokens ahead. -/
theorem peek_bind (f : Option Token → Action α) :
    (peek tokens >>= f) s = f (tokens.drop s.place.cursor).head? s := by
  rw [List.head?_drop]
  rfl

theorem peek_of_nil (h : tokens.drop s.place.cursor = []) (f : Option Token → Action α) :
    (peek tokens >>= f) s = f none s := by
  rw [peek_bind, h]
  rfl

theorem peek_of_cons {token : Token} {later : List Token}
    (h : tokens.drop s.place.cursor = token :: later) (f : Option Token → Action α) :
    (peek tokens >>= f) s = f (some token) s := by
  rw [peek_bind, h]
  rfl

/-- At the end of the row there is nothing to step over. -/
theorem advance_of_nil (h : tokens.drop s.place.cursor = []) (f : Option Token → Action α) :
    (advance tokens >>= f) s = f none s := by
  refine bind_of_ok ?_ f
  rw [advance, peek_of_nil h]
  rfl

/-- Elsewhere the next token is stepped over. -/
theorem advance_of_cons {token : Token} {later : List Token}
    (h : tokens.drop s.place.cursor = token :: later) (f : Option Token → Action α) :
    (advance tokens >>= f) s = f (some token) s.forward := by
  refine bind_of_ok ?_ f
  rw [advance, peek_of_cons h]
  rfl

/-- A symbol that is next is stepped over. -/
theorem eat_of_starts {symbol : Symbol} {pos : Nat} {later : List Token}
    (h : tokens.drop s.place.cursor = ⟨.symbol symbol, pos⟩ :: later) (f : Bool → Action α) :
    (eat tokens symbol >>= f) s = f true s.forward := by
  refine bind_of_ok ?_ f
  rw [eat, peek_of_cons h]
  exact congrFun (if_pos rfl) s

/-- Anything else stays where it is. -/
theorem eat_of_ne {symbol : Symbol}
    (h : ∀ pos later, tokens.drop s.place.cursor ≠ ⟨.symbol symbol, pos⟩ :: later)
    (f : Bool → Action α) : (eat tokens symbol >>= f) s = f false s := by
  refine bind_of_ok ?_ f
  rw [eat, peek_bind]
  refine congrFun (if_neg fun hnext => ?_) s
  cases hrow : tokens.drop s.place.cursor with
  | nil =>
    rw [hrow] at hnext
    cases hnext
  | cons token later =>
    obtain ⟨lexeme, pos⟩ := token
    rw [hrow] at hnext
    cases hnext
    exact h pos later hrow

/-- The complaint about the next token is that of the readers. -/
theorem reads_unexpected (h : s.place.cursor ≤ tokens.length) (expected : Expected) :
    Reads tokens limit (unexpected tokens expected : Action α) s
      (.error (Frame.unexpected ⟨endOf tokens, limit⟩ expected (tokens.drop s.place.cursor))) := by
  cases hrow : tokens.drop s.place.cursor with
  | nil => exact .of_eq (peek_of_nil hrow _) (reads_complain h (by simp))
  | cons token later => exact .of_eq (peek_of_cons hrow _) (reads_complain h (by simp))

/-- The reading of a closing parenthesis ends as its reader does. -/
theorem reads_closeParen (h : s.place.cursor ≤ tokens.length) (hdepth : s.place.depth ≤ limit)
    (opened : Nat) :
    Reads tokens limit (closeParen tokens opened) s
      ((readClosing ⟨endOf tokens, limit⟩ opened (tokens.drop s.place.cursor)).map ((), ·)) := by
  unfold readClosing
  split
  · next later hrow =>
    have hlt : s.forward.place.cursor ≤ tokens.length := lt_of_drop hrow
    refine .of_kept (eat_of_starts hrow _) (kept_forward hlt hdepth) ?_
    rw [← drop_succ hrow]
    exact reads_pure hlt ()
  · next hrow =>
    refine .of_eq (eat_of_ne (by simp [hrow]) _) ?_
    exact .of_eq (peek_of_nil hrow _) (reads_complain h (by simp))
  · next hclose hend =>
    refine .of_eq (eat_of_ne hclose _) ?_
    obtain ⟨token, later, hrow⟩ := List.exists_cons_of_ne_nil hend
    exact .of_eq (peek_of_cons hrow _) (reads_unexpected h .closeParen)

/-- What was read inside comes out with its parenthesis closed. -/
theorem reads_closed (h : s.place.cursor ≤ tokens.length) (hdepth : s.place.depth ≤ limit)
    (opened : Nat) (value : α) :
    Reads tokens limit (do closeParen tokens opened; return value) s
      (do
        let rest ← readClosing ⟨endOf tokens, limit⟩ opened (tokens.drop s.place.cursor)
        return (value, rest)) := by
  have closed := reads_closeParen h hdepth opened
  cases hclosing : readClosing ⟨endOf tokens, limit⟩ opened (tokens.drop s.place.cursor) with
  | error e =>
    rw [hclosing] at closed
    exact closed.bind_error
  | ok rest =>
    rw [hclosing] at closed
    cases closed with
    | ok hend hkept => exact .of_kept (bind_of_ok hend _) hkept (reads_pure hkept.cursor value)

/-! ### One level down -/

/-- The state of a reading that was let in. -/
def State.inside (s : State) : State :=
  (s.moveTo { s.place with depth := s.place.depth + 1 }).moveTo
    { s.place with depth := s.place.depth + 1, running := s.place.running + 1 }

/-- Below the limit a reading is let in. -/
theorem enter_of_lt (h : s.place.depth < limit) : enter limit s = .ok (.ok (), s.inside) :=
  congrFun (if_neg (Nat.not_lt.2 h)) (s.moveTo { s.place with depth := s.place.depth + 1 })

/-- At the limit it is not, and the level it has gone down stays counted. -/
theorem enter_of_eq (h : s.place.depth = limit) :
    enter limit s = .ok (.error (.tooDeep limit),
      s.moveTo { s.place with depth := s.place.depth + 1 }) :=
  congrFun (if_pos (Nat.lt_succ_of_le (Nat.le_of_eq h.symm)))
    (s.moveTo { s.place with depth := s.place.depth + 1 })

/-- A reading that is not let in leaves the depth one too high. -/
theorem reads_nested_of_eq (h : s.place.cursor ≤ tokens.length) (hdepth : s.place.depth = limit)
    (body : Action α) : Reads tokens limit (nested limit body) s (.error (.tooDeep limit)) := by
  refine .error (bind_of_error (enter_of_eq hdepth) _) ?_
  rw [overshoot, if_pos rfl]
  refine ⟨h, rfl, rfl, fun place hplace => ?_⟩
  rcases List.mem_cons.1 hplace with rfl | hplace
  · exact .inr ⟨h, Nat.succ_le_succ (Nat.le_of_eq hdepth),
      Nat.add_le_add_right (Nat.le_of_eq hdepth) _⟩
  · exact .inl hplace

/-- The state in which a reading is left. -/
def State.outside (s : State) : State :=
  s.moveTo { s.place with depth := s.place.depth - 1, running := s.place.running - 1 }

/-- A reading that was let in can be left. -/
theorem leave_of_pos (h : 0 < s.place.depth) : leave s = .ok (.ok (), s.outside) := by
  obtain ⟨⟨cursor, depth, running⟩, trail⟩ := s
  cases depth with
  | zero => exact absurd h (Nat.lt_irrefl 0)
  | succ depth => rfl

/-- Leaving a reading that kept within bounds restores the depth. -/
theorem kept_outside {extra : Nat} (hcursor : s.place.cursor ≤ tokens.length)
    (hdepth : s.place.depth < limit) (hover : extra ≤ 1)
    (h : Kept tokens limit extra s.inside s') : Kept tokens limit extra s s'.outside := by
  have depth : s'.place.depth = s.place.depth + 1 + extra := h.depth
  have running : s'.place.running = s.place.running + 1 := h.running
  refine ⟨h.cursor, ?_, ?_, fun place hplace => ?_⟩
  · show s'.place.depth - 1 = s.place.depth + extra
    omega
  · show s'.place.running - 1 = s.place.running
    omega
  -- the places passed are that of leaving, those of the body and the two of entering
  rcases List.mem_cons.1 hplace with rfl | hplace
  · refine .inr ⟨h.cursor, ?_, ?_⟩
    · show s'.place.depth - 1 ≤ limit + 1
      omega
    · show s.place.depth + (s'.place.running - 1) ≤ limit + s.place.running
      omega
  rcases h.trail place hplace with hplace | ⟨hcursor, hlevel, hrunning⟩
  · rcases List.mem_cons.1 hplace with rfl | hplace
    · refine .inr ⟨hcursor, Nat.succ_le_succ (Nat.le_of_lt hdepth), ?_⟩
      show s.place.depth + (s.place.running + 1) ≤ limit + s.place.running
      omega
    rcases List.mem_cons.1 hplace with rfl | hplace
    · refine .inr ⟨hcursor, Nat.succ_le_succ (Nat.le_of_lt hdepth), ?_⟩
      exact Nat.add_le_add_right (Nat.le_of_lt hdepth) _
    · exact .inl hplace
  · refine .inr ⟨hcursor, hlevel, ?_⟩
    have : s.place.depth + 1 + place.running ≤ limit + (s.place.running + 1) := hrunning
    omega

/-- A reading that was let in is left whatever it ends with. -/
theorem nested_of_ends {body : Action α} {outcome : Except GrammarError α}
    (hdepth : s.place.depth < limit) (hend : body s.inside = .ok (outcome, s'))
    (hpos : 0 < s'.place.depth) : nested limit body s = .ok (outcome, s'.outside) := by
  have attempted : attempt body s.inside = .ok (.ok outcome, s') := by
    rw [attempt, hend]
  rw [nested, bind_of_ok (enter_of_lt hdepth), bind_of_ok attempted,
    bind_of_ok (leave_of_pos hpos)]
  cases outcome with
  | ok value => rfl
  | error e => rfl

/-- **A reading that is let in reads as its body**, and is left whatever that ends with. -/
theorem reads_nested {body : Action α} {reading : Except GrammarError (α × List Token)}
    (hcursor : s.place.cursor ≤ tokens.length) (hdepth : s.place.depth < limit)
    (hbody : Reads tokens limit body s.inside reading) :
    Reads tokens limit (nested limit body) s reading := by
  have positive {extra : Nat} {s' : State} (h : Kept tokens limit extra s.inside s') :
      0 < s'.place.depth := by
    have : s'.place.depth = s.place.depth + 1 + extra := h.depth
    omega
  cases hbody with
  | @ok value s' hend hkept =>
    -- leaving moves no cursor, so the rest is that of the body
    have read := Reads.ok (nested_of_ends hdepth hend (positive hkept))
      (kept_outside hcursor hdepth (Nat.zero_le 1) hkept)
    exact read
  | @error e s' hend hkept =>
    have hover : overshoot limit e ≤ 1 := by
      unfold overshoot
      split <;> decide
    exact .error (nested_of_ends hdepth hend (positive hkept))
      (kept_outside hcursor hdepth hover hkept)

end

end Cursor
end Formula
end GuildRating
