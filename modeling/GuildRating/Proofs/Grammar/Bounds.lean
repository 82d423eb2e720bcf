/-
# The parser stays within bounds

With a cursor and a depth the parser could run off the row, step below zero, or call itself without
end, since it descends through six levels of operators without taking a token.  It does none of
these (`parser_stays_within_bounds`).  Twelve steps of fuel for each token ahead are enough, and one
more for each reading on the way down from an argument through the levels to an atom: a reading
calls those below it, and others only after it has taken a token.  So all readings are followed
together by induction on the fuel, each next to the reader that hands on its rest.
-/

import Mathlib.Control.Monad.Basic
import GuildRating.Proofs.Grammar.Cursor

namespace GuildRating
namespace Formula
namespace Cursor

open Formula.Expr

variable {tokens : List Token} {limit room fuel level pos : Nat} {s s' : State}

/-- The cursor is on the row or at its end, and the depth leaves this room. -/
structure Ready (tokens : List Token) (limit room : Nat) (s : State) : Prop where
  cursor : s.place.cursor ≤ tokens.length
  depth : s.place.depth + room = limit

/-- A reading that keeps the depth leaves the next one ready. -/
theorem Ready.kept (h : Ready tokens limit room s) (hkept : Kept tokens limit 0 s s') :
    Ready tokens limit room s' :=
  ⟨hkept.cursor, by rw [hkept.depth]; exact h.depth⟩

/-- A reading that is let in is ready with one level less of room. -/
theorem Ready.inside (h : Ready tokens limit (room + 1) s) : Ready tokens limit room s.inside :=
  ⟨h.cursor, by rw [← h.depth]; exact Nat.add_right_comm _ _ _⟩

/-- With room left the depth is below the limit. -/
theorem Ready.lt (h : Ready tokens limit (room + 1) s) : s.place.depth < limit :=
  h.depth ▸ Nat.lt_add_of_pos_right (Nat.succ_pos room)

/-- The depth never passes the limit. -/
theorem Ready.le (h : Ready tokens limit room s) : s.place.depth ≤ limit :=
  h.depth ▸ Nat.le_add_right _ _

/-- Stepping over a token keeps within bounds. -/
theorem Ready.forward {token : Token} {later : List Token} (h : Ready tokens limit room s)
    (hrow : tokens.drop s.place.cursor = token :: later) : Kept tokens limit 0 s s.forward :=
  kept_forward (lt_of_drop hrow) h.le

/-- The tokens that lie ahead. -/
def left (tokens : List Token) (s : State) : Nat := tokens.length - s.place.cursor

/-- Stepping over a token leaves one token less. -/
theorem left_forward {token : Token} {later : List Token}
    (hrow : tokens.drop s.place.cursor = token :: later) :
    left tokens s.forward + 1 = left tokens s := by
  have : s.place.cursor < tokens.length := lt_of_drop hrow
  show tokens.length - (s.place.cursor + 1) + 1 = tokens.length - s.place.cursor
  omega

/-- A reading that succeeds leaves fewer tokens. -/
theorem left_of_read {value : α} {x : Except GrammarError (Front (tokens.drop s.place.cursor) α)}
    (h : x.map Front.pair = .ok (value, tokens.drop s'.place.cursor)) :
    left tokens s' < left tokens s := by
  have := Front.shorter_of_pair h
  rwa [List.length_drop, List.length_drop] at this

/-- Past a step over the next token there is one token less ahead, and all else is as it was. -/
theorem Ready.reads {α : Type} {token : Token} {later : List Token} {action action' : Action α}
    {reading : Except GrammarError (α × List Token)} (h : Ready tokens limit room s)
    (hrow : tokens.drop s.place.cursor = token :: later) (hrun : action s = action' s.forward)
    (hnext : Ready tokens limit room s.forward → left tokens s.forward + 1 = left tokens s →
      tokens.drop s.forward.place.cursor = later → Reads tokens limit action' s.forward reading) :
    Reads tokens limit action s reading := by
  have kept := h.forward hrow
  exact .of_kept hrun kept (hnext (h.kept kept) (left_forward hrow) (drop_succ hrow))

/-- The reading of a conditional, let in already. -/
def readTernary (frame : Frame) (room : Nat) (tokens : List Token) :
    Except GrammarError (Expr × List Token) := do
  let (condition, rest) ← readOperation frame 0 room tokens
  readBranches frame room condition rest

/-! ### Each reading with enough fuel -/

mutual

/-- The expression is let in where there is room for it, and else complains. -/
theorem reads_expression (fuel : Nat) {room : Nat} {s : State} (h : Ready tokens limit room s)
    (hfuel : 12 * left tokens s + 11 ≤ fuel) :
    Reads tokens limit (expression tokens limit fuel) s
      (readExpression ⟨endOf tokens, limit⟩ room (tokens.drop s.place.cursor)) := by
  cases fuel with
  | zero => omega
  | succ fuel =>
    rw [expression]
    cases room with
    | zero =>
      rw [readExpression_zero]
      exact reads_nested_of_eq h.cursor h.depth _
    | succ room =>
      rw [readExpression_succ]
      exact reads_nested h.cursor h.lt (reads_ternary fuel h.inside (Nat.le_of_succ_le_succ hfuel))
termination_by fuel

/-- Behind the condition there are two branches or none. -/
theorem reads_ternary (fuel : Nat) {room : Nat} {s : State} (h : Ready tokens limit room s)
    (hfuel : 12 * left tokens s + 10 ≤ fuel) :
    Reads tokens limit (ternary tokens limit fuel) s
      (readTernary ⟨endOf tokens, limit⟩ room (tokens.drop s.place.cursor)) := by
  cases fuel with
  | zero => omega
  | succ fuel =>
    rw [ternary]
    refine (reads_binary fuel 0 h (Nat.zero_le 6) (by omega)).bind
      fun condition s₁ hread hkept => ?_
    have short := left_of_read hread
    have h := h.kept hkept
    dsimp only
    unfold readBranches
    split
    · next later hrow =>
      refine h.reads hrow (eat_of_starts hrow _) fun h next hlater => ?_
      rw [← hlater]
      refine (reads_expression fuel h (by omega)).bind fun whenTrue s₂ hread hkept => ?_
      have short' := left_of_read hread
      have h := h.kept hkept
      dsimp only
      unfold readLastBranch
      split
      · next later hrow =>
        refine h.reads hrow (eat_of_starts hrow _) fun h next hlater => ?_
        rw [← hlater]
        refine (reads_expression fuel h (by omega)).bind fun whenFalse s₃ _ hkept => ?_
        exact reads_pure hkept.cursor _
      · next hrow =>
        refine .of_eq (eat_of_ne hrow _) ?_
        exact reads_unexpected h.cursor .colon
    · next hrow =>
      refine .of_eq (eat_of_ne hrow _) ?_
      exact reads_pure h.cursor condition
termination_by fuel

/-- On the way down no token is taken, and a step of fuel is what is left for each level. -/
theorem reads_binary (fuel level : Nat) {room : Nat} {s : State} (h : Ready tokens limit room s)
    (hlevel : level ≤ 6) (hfuel : 12 * left tokens s + 3 + (6 - level) ≤ fuel) :
    Reads tokens limit (binary tokens limit fuel level) s
      (readOperation ⟨endOf tokens, limit⟩ level room (tokens.drop s.place.cursor)) := by
  cases fuel with
  | zero => omega
  | succ fuel =>
    rw [binary]
    rcases Nat.lt_or_eq_of_le hlevel with hlt | rfl
    · have hne : level ≠ BinaryOp.levels := Nat.ne_of_lt hlt
      rw [if_neg hne, readOperation_of_lt hlt]
      refine (reads_binary fuel (level + 1) h hlt (by omega)).bind fun left s₁ hread hkept => ?_
      have short := left_of_read hread
      exact reads_chain fuel level left (h.kept hkept) hlt (by omega)
    · have heq : 6 = BinaryOp.levels := rfl
      rw [if_pos heq, readOperation_of_le (Nat.le_refl 6)]
      exact reads_unary fuel h (by omega)
termination_by fuel

/-- The loop over the operators of a level ends as its reader does. -/
theorem reads_chain (fuel level : Nat) (tree : Expr) {room : Nat} {s : State}
    (h : Ready tokens limit room s) (hlevel : level < 6) (hfuel : 12 * left tokens s + 1 ≤ fuel) :
    Reads tokens limit (chain tokens limit fuel level tree) s
      (readChain ⟨endOf tokens, limit⟩ level room tree (tokens.drop s.place.cursor)) := by
  cases fuel with
  | zero => omega
  | succ fuel =>
    rw [chain]
    cases hrow : tokens.drop s.place.cursor with
    | nil =>
      refine .of_eq (peek_of_nil hrow _) ?_
      rw [readChain_nil, ← hrow]
      exact reads_pure h.cursor tree
    | cons token later =>
      refine .of_eq (peek_of_cons hrow _) ?_
      rw [Option.bind_some]
      cases hop : operatorAt? level token.lexeme with
      | none =>
        rw [readChain_of_none hop, ← hrow]
        exact reads_pure h.cursor tree
      | some op =>
        refine h.reads hrow (step_bind _) fun h next hlater => ?_
        rw [readChain_of_some hop, ← hlater]
        refine (reads_binary fuel (level + 1) h hlevel (by omega)).bind
          fun right s₁ hread hkept => ?_
        have short := left_of_read hread
        exact reads_chain fuel level _ (h.kept hkept) hlevel (by omega)
termination_by fuel

/-- The reading of an operand ends as its reader does. -/
theorem reads_unary (fuel : Nat) {room : Nat} {s : State} (h : Ready tokens limit room s)
    (hfuel : 12 * left tokens s + 2 ≤ fuel) :
    Reads tokens limit (unary tokens limit fuel) s
      (readOperand ⟨endOf tokens, limit⟩ room (tokens.drop s.place.cursor)) := by
  cases fuel with
  | zero => omega
  | succ fuel =>
    rw [unary]
    cases hrow : tokens.drop s.place.cursor with
    | nil =>
      refine .of_eq (peek_of_nil hrow _) ?_
      rw [readOperand_nil, ← readAtom_nil, ← hrow]
      exact reads_atom fuel h (by omega)
    | cons token later =>
      refine .of_eq (peek_of_cons hrow _) ?_
      rw [Option.bind_some]
      cases hop : unaryOp? token.lexeme with
      | none =>
        rw [readOperand_of_none hop, ← hrow]
        exact reads_atom fuel h (by omega)
      | some op =>
        refine h.reads hrow (step_bind _) fun h next hlater => ?_
        cases room with
        | zero =>
          rw [readOperand_zero hop]
          exact (reads_nested_of_eq h.cursor h.depth _).bind_error
        | succ room =>
          rw [readOperand_succ hop, ← hlater]
          have inside : left tokens s.forward.inside = left tokens s.forward := rfl
          refine (reads_nested h.cursor h.lt (reads_unary fuel h.inside (by omega))).bind
            fun operand s₁ _ hkept => ?_
          exact reads_pure hkept.cursor _
termination_by fuel

/-- Only here the cursor goes back, by the step that it has just made. -/
theorem reads_atom (fuel : Nat) {room : Nat} {s : State} (h : Ready tokens limit room s)
    (hfuel : 12 * left tokens s + 1 ≤ fuel) :
    Reads tokens limit (atom tokens limit fuel) s
      (readAtom ⟨endOf tokens, limit⟩ room (tokens.drop s.place.cursor)) := by
  cases fuel with
  | zero => omega
  | succ fuel =>
    rw [atom]
    match hrow : tokens.drop s.place.cursor with
    | [] =>
      have complaint : Reads tokens limit (unexpected tokens .operand : Action Expr) s _ :=
        reads_unexpected h.cursor .operand
      rw [hrow] at complaint
      rw [readAtom_nil]
      exact .of_eq (advance_of_nil hrow _) complaint
    | ⟨.number value, p⟩ :: later =>
      refine h.reads hrow (advance_of_cons hrow _) fun h _ hlater => ?_
      rw [readAtom_number, ← hlater]
      exact reads_pure h.cursor _
    | ⟨.name name, p⟩ :: later =>
      refine h.reads hrow (advance_of_cons hrow _) fun h next hlater => ?_
      rcases starts_or_ne .openParen later with ⟨q, args, rfl⟩ | noCall
      · refine h.reads hlater (eat_of_starts hlater _) fun h next hargs => ?_
        rw [readAtom_call, ← hargs]
        refine (reads_arguments fuel p h (by omega)).bind fun args s₁ _ hkept => ?_
        exact reads_pure hkept.cursor _
      · refine .of_eq (eat_of_ne (by rw [hlater]; exact noCall) _) ?_
        rw [readAtom_var noCall, ← hlater]
        exact reads_pure h.cursor _
    | ⟨.symbol symbol, p⟩ :: later =>
      by_cases hopen : symbol = .openParen
      · subst hopen
        refine h.reads hrow (advance_of_cons hrow _) fun h next hlater => ?_
        rw [readAtom_group, ← hlater]
        refine (reads_expression fuel h (by omega)).bind fun inner s₁ _ hkept => ?_
        have h := h.kept hkept
        exact reads_closed h.cursor h.le p inner
      · -- the token is stepped over, and the complaint is made where it started
        have back : Kept tokens limit 0 s.forward (s.forward.moveTo s.place) :=
          kept_moveTo h.cursor h.le
        have complaint : Reads tokens limit (unexpected tokens .operand : Action Expr)
            (s.forward.moveTo s.place) (.error (Frame.unexpected ⟨endOf tokens, limit⟩ .operand
              (tokens.drop s.place.cursor))) :=
          reads_unexpected (s := s.forward.moveTo s.place) h.cursor .operand
        rw [readAtom_symbol hopen]
        rw [hrow] at complaint
        refine .of_kept ?_ ((h.forward hrow).trans back) complaint
        rw [advance_of_cons hrow]
        cases symbol with
        | openParen => exact absurd rfl hopen
        | _ => exact stepBack_bind _
termination_by fuel

/-- The reading of arguments, perhaps of none, ends as its reader does. -/
theorem reads_arguments (fuel pos : Nat) {room : Nat} {s : State} (h : Ready tokens limit room s)
    (hfuel : 12 * left tokens s + 13 ≤ fuel) :
    Reads tokens limit (arguments tokens limit fuel pos) s
      (readArguments ⟨endOf tokens, limit⟩ pos room (tokens.drop s.place.cursor)) := by
  cases fuel with
  | zero => omega
  | succ fuel =>
    rw [arguments]
    rcases starts_or_ne .closeParen (tokens.drop s.place.cursor) with ⟨p, later, hrow⟩ | noClose
    · refine h.reads hrow (eat_of_starts hrow _) fun h _ hlater => ?_
      rw [hrow, readArguments_close, ← hlater]
      exact reads_pure h.cursor _
    · refine .of_eq (eat_of_ne noClose _) ?_
      rw [readArguments_of_ne noClose]
      exact reads_argumentsFrom fuel pos h (by omega)
termination_by fuel

/-- The loop over the arguments ends as its reader does. -/
theorem reads_argumentsFrom (fuel pos : Nat) {room : Nat} {s : State}
    (h : Ready tokens limit room s) (hfuel : 12 * left tokens s + 12 ≤ fuel) :
    Reads tokens limit (argumentsFrom tokens limit fuel pos) s
      (readArgumentsFrom ⟨endOf tokens, limit⟩ pos room (tokens.drop s.place.cursor)) := by
  cases fuel with
  | zero => omega
  | succ fuel =>
    rw [argumentsFrom, readArgumentsFrom_eq]
    refine (reads_expression fuel h (by omega)).bind fun arg s₁ hread hkept => ?_
    have short := left_of_read hread
    have h := h.kept hkept
    dsimp only
    unfold readMore
    split
    · next later hrow =>
      refine h.reads hrow (eat_of_starts hrow _) fun h next hlater => ?_
      rw [← hlater]
      refine (reads_argumentsFrom fuel pos h (by omega)).bind fun others s₂ _ hkept => ?_
      exact reads_pure hkept.cursor _
    · next hrow =>
      refine .of_eq (eat_of_ne hrow _) ?_
      exact reads_closed h.cursor h.le pos [arg]
termination_by fuel

end

/-! ### How a reading ends -/

/-- How a reading that started at a place ends. -/
structure Ends {α : Type} (tokens : List Token) (limit : Nat) (start : Place)
    (outcome : Except GrammarError α) (finish : State) : Prop where
  /-- On the way no counter leaves its bounds, and no more nested readings run past their depth
  check than there are levels left. -/
  passed : ∀ place ∈ finish.trail, InBounds tokens limit start place
  onRow : finish.place.cursor ≤ tokens.length
  running : finish.place.running = start.running
  /-- With a value at least one token has been read, and every level entered is left. -/
  ok : ∀ value, outcome = .ok value →
    start.cursor < finish.place.cursor ∧ finish.place.depth = start.depth
  /-- With a complaint every level is left too, but the one that was entered in vain. -/
  error : ∀ e, outcome = .error e → finish.place.depth = start.depth + overshoot limit e

/-- The action ends without a fault, as the reader does and within bounds. -/
def StaysWithin {α : Type} (tokens : List Token) (limit : Nat) (start : Place) (action : Action α)
    (reading : Except GrammarError (α × List Token)) : Prop :=
  ∃ outcome finish, action ⟨start, []⟩ = .ok (outcome, finish) ∧
    outcome.map (fun value => (value, tokens.drop finish.place.cursor)) = reading ∧
    Ends tokens limit start outcome finish

/-- An action that ends as a reader does stays within bounds, if the reader takes a token. -/
theorem staysWithin_of_reads {α : Type} {start : Place} {action : Action α}
    {reading : Except GrammarError (α × List Token)}
    (h : Reads tokens limit action ⟨start, []⟩ reading)
    (hshort : ∀ value rest, reading = .ok (value, rest) →
      rest.length < (tokens.drop start.cursor).length) :
    StaysWithin tokens limit start action reading := by
  have passed {extra : Nat} {s : State} (hkept : Kept tokens limit extra ⟨start, []⟩ s) :
      ∀ place ∈ s.trail, InBounds tokens limit start place := by
    intro place hplace
    exact (hkept.trail place hplace).resolve_left List.not_mem_nil
  cases h with
  | @ok value s hend hkept =>
    have shorter := hshort value _ rfl
    rw [List.length_drop, List.length_drop] at shorter
    have further : start.cursor < s.place.cursor := by omega
    refine ⟨_, s, hend, rfl, passed hkept, hkept.cursor, hkept.running,
      fun _ _ => ⟨further, hkept.depth⟩, fun _ he => ?_⟩
    cases he
  | @error e s hend hkept =>
    refine ⟨_, s, hend, rfl, passed hkept, hkept.cursor, hkept.running, fun _ he => ?_,
      fun _ he => ?_⟩
    · cases he
    · cases he
      exact hkept.depth

/-- **The parser ends within bounds on every row of tokens.**  From every place on the row and every
depth that is not above the limit, each of its readings ends as the reader does that hands on its
rest, for every fuel from twelve steps a token on.  No counter falls below zero, the cursor stays on
the row, and no more nested readings run at once than there are levels left; a reading with a value
has taken a token and left every level that it entered. -/
theorem parser_stays_within_bounds {tokens : List Token} {limit fuel : Nat} {start : Place}
    (hcursor : start.cursor ≤ tokens.length) (hdepth : start.depth ≤ limit)
    (hfuel : 12 * (tokens.length - start.cursor) + 13 ≤ fuel) :
    let frame : Frame := ⟨endOf tokens, limit⟩
    let room := limit - start.depth
    let rest := tokens.drop start.cursor
    StaysWithin tokens limit start (expression tokens limit fuel) (readExpression frame room rest) ∧
    StaysWithin tokens limit start (ternary tokens limit fuel) (readTernary frame room rest) ∧
    (∀ level ≤ 6, StaysWithin tokens limit start (binary tokens limit fuel level)
      (readOperation frame level room rest)) ∧
    StaysWithin tokens limit start (unary tokens limit fuel) (readOperand frame room rest) ∧
    StaysWithin tokens limit start (atom tokens limit fuel) (readAtom frame room rest) ∧
    ∀ pos, StaysWithin tokens limit start (arguments tokens limit fuel pos)
      (readArguments frame pos room rest) := by
  intro frame room rest
  have ready : Ready tokens limit room ⟨start, []⟩ := ⟨hcursor, Nat.add_sub_of_le hdepth⟩
  have hfuel : 12 * left tokens ⟨start, []⟩ + 13 ≤ fuel := hfuel
  refine ⟨?_, ?_, fun level hlevel => ?_, ?_, ?_, fun pos => ?_⟩
  · exact staysWithin_of_reads (reads_expression fuel ready (by omega))
      fun _ _ => Front.shorter_of_pair
  · refine staysWithin_of_reads (reads_ternary fuel ready (by omega)) fun _ _ hread => ?_
    rw [readTernary, ← readExpression_succ] at hread
    exact Front.shorter_of_pair hread
  · exact staysWithin_of_reads (reads_binary fuel level ready hlevel (by omega))
      fun _ _ => Front.shorter_of_pair
  · exact staysWithin_of_reads (reads_unary fuel ready (by omega)) fun _ _ => Front.shorter_of_pair
  · exact staysWithin_of_reads (reads_atom fuel ready (by omega)) fun _ _ => Front.shorter_of_pair
  · exact staysWithin_of_reads (reads_arguments fuel pos ready hfuel)
      fun _ _ => Front.shorter_of_pair

/-- The tokens of `-(1)`. -/
def negatedGroup : List Token :=
  [⟨.symbol .minus, 0⟩, ⟨.symbol .openParen, 1⟩, ⟨.number 1, 2⟩, ⟨.symbol .closeParen, 3⟩]

/-- Three levels are entered for it; where there are only two, the third one is not left. -/
theorem parser_stays_within_bounds_negatedGroup :
    readExpression ⟨endOf negatedGroup, 3⟩ 3 negatedGroup = .ok (.unary .neg (.number 1), []) ∧
    ∃ finish, expression negatedGroup 2 61 ⟨⟨0, 0, 0⟩, []⟩ = .ok (.error (.tooDeep 2), finish) ∧
      finish.place.depth = 1 := by
  obtain ⟨outcome, finish, hend, hread, -⟩ :=
    (@parser_stays_within_bounds negatedGroup 3 61 ⟨0, 0, 0⟩ (by decide) (by decide)
      (by decide)).1
  obtain ⟨outcome', finish', hend', -, hends⟩ :=
    (@parser_stays_within_bounds negatedGroup 2 61 ⟨0, 0, 0⟩ (by decide) (by decide)
      (by decide)).1
  have read : (expression negatedGroup 3 61 ⟨⟨0, 0, 0⟩, []⟩).map (fun x => (x.1, x.2.place)) =
      .ok (.ok (.unary .neg (.number 1)), ⟨4, 0, 0⟩) := by decide +kernel
  have stopped : (expression negatedGroup 2 61 ⟨⟨0, 0, 0⟩, []⟩).map (·.1) =
      .ok (.error (.tooDeep 2)) := by decide +kernel
  rw [hend, map_ok, Except.ok.injEq, Prod.mk.injEq] at read
  rw [hend', map_ok, Except.ok.injEq] at stopped
  obtain ⟨rfl, hplace⟩ := read
  obtain rfl : outcome' = .error (.tooDeep 2) := stopped
  rw [map_ok, hplace] at hread
  exact ⟨hread.symm, finish', hend', hends.error _ rfl⟩

end Cursor
end Formula
end GuildRating
