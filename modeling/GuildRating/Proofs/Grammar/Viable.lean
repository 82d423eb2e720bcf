/-
# Where a row becomes hopeless

A row of tokens is viable when something can be put behind it so that the parser accepts the
whole at some limit.  A parser that reads from left to right should complain about the first token
that makes the row hopeless, and this one does (`located_of_parse`).

That the tokens before the blamed one are viable is read off the outcomes of the readers
(`readExpression_reading`).  That no continuation helps is read off them as well: the outcome does
not change with what stands behind the token, and a larger limit does not change it either
(`parse_roomier`).
-/

import GuildRating.Proofs.Grammar.Complaints
import GuildRating.Proofs.Grammar.Outcome
import GuildRating.Proofs.Grammar.Parse
import GuildRating.Proofs.Grammar.Phrases
import GuildRating.Proofs.Grammar.Room
import GuildRating.Proofs.Scan.Split

namespace GuildRating
namespace Formula
namespace Grammar

open Formula.Expr

/-- At some limit the parser gives the row a tree. -/
def Accepted (tokens : List Token) : Prop := ∃ limit tree, parse limit tokens = .ok tree

/-- Some continuation of the row is accepted. -/
def Viable (tokens : List Token) : Prop := ∃ more, Accepted (tokens ++ more)

/-- The row ends too early: where something was due, or behind a parenthesis that all the rest of
the row stands in.  The parenthesis of a call is reported at the name. -/
inductive Unfinished (endPos : Nat) : List Token → GrammarError → Prop
  | ends {tokens : List Token} {expected : Expected} :
      Unfinished endPos tokens (.unexpected endPos expected none)
  | group {inner : List Token} {pos : Nat} : Forms IsExpression inner →
      Unfinished endPos (⟨.symbol .openParen, pos⟩ :: inner) (.unbalanced pos)
  | call {args : List Token} {name : String} {pos pos' : Nat} : Forms IsArguments args →
      Unfinished endPos (⟨.name name, pos⟩ :: ⟨.symbol .openParen, pos'⟩ :: args) (.unbalanced pos)
  | cons {tokens : List Token} {token : Token} {e : GrammarError} : Unfinished endPos tokens e →
      Unfinished endPos (token :: tokens) e

variable {endPos limit room level pos : Nat} {tokens : List Token}

namespace Unfinished

variable {e : GrammarError}

/-- A row that ends too early does so with anything before it. -/
theorem append {rest : List Token} (h : Unfinished endPos rest e) :
    (before : List Token) → Unfinished endPos (before ++ rest) e
  | [] => h
  | _ :: before => .cons (h.append before)

/-- A row that ends too early is not refused for a token. -/
theorem ne_found (h : Unfinished endPos tokens e) (expected : Expected) (lexeme : Lexeme) :
    e ≠ .unexpected pos expected (some lexeme) := by
  induction h with
  | ends => simp
  | group _ => simp
  | call _ => simp
  | cons _ ih => exact ih

/-- What is not closed is no closing parenthesis itself. -/
theorem exists_unclosed (h : Unfinished endPos tokens e) (he : e = .unbalanced pos) :
    ∃ token ∈ tokens, token.pos = pos ∧ token.lexeme ≠ .symbol .closeParen := by
  induction h with
  | ends => cases he
  | group _ =>
    cases he
    exact ⟨_, List.mem_cons_self, rfl, by simp⟩
  | call _ =>
    cases he
    exact ⟨_, List.mem_cons_self, rfl, by simp⟩
  | cons _ ih =>
    obtain ⟨token, hmem, htoken⟩ := ih he
    exact ⟨token, List.mem_cons_of_mem _ hmem, htoken⟩

end Unfinished

/-- A row with the same first token does not start with the symbol either. -/
theorem ne_of_head? {s : Symbol} {tokens' : List Token}
    (h : ∀ p later, tokens ≠ ⟨.symbol s, p⟩ :: later) (hhead : tokens'.head? = tokens.head?) :
    ∀ p later, tokens' ≠ ⟨.symbol s, p⟩ :: later := by
  rintro p later rfl
  obtain ⟨rest, hrest⟩ := List.head?_eq_some_iff.1 hhead.symm
  exact h p rest hrest

/-! ### Phrases that go on with another one -/

/-- What makes an operation of the level a longer one. -/
def Continues (level : Nat) (row : List Token) : Prop :=
  ∀ before, Forms (IsOperation level) before → Forms (IsOperation level) (before ++ row)

/-- What makes an expression of a condition: both branches, or nothing. -/
def Branches (row : List Token) : Prop :=
  ∀ condition, Forms (IsOperation 0) condition → Forms IsExpression (condition ++ row)

/-- A colon and the second branch. -/
def LastBranch (row : List Token) : Prop :=
  ∃ p branch, row = ⟨.symbol .colon, p⟩ :: branch ∧ Forms IsExpression branch

/-- Arguments and the parenthesis that closes them. -/
def Enclosed (row : List Token) : Prop :=
  ∃ args p, row = args ++ [⟨.symbol .closeParen, p⟩] ∧ Forms IsArguments args

/-- What follows an argument: the parenthesis, or a comma and more arguments. -/
def MoreEnclosed (row : List Token) : Prop :=
  ∀ arg, Forms IsExpression arg → Enclosed (arg ++ row)

/-- The arguments of the call at `pos` are not closed, or end too early themselves. -/
def UnfinishedArguments (endPos pos : Nat) (row : List Token) (e : GrammarError) : Prop :=
  Unfinished endPos row e ∨ e = .unbalanced pos ∧ Forms IsArguments row

theorem continues_nil : Continues level [] := by
  intro before h
  rwa [List.append_nil]

theorem branches_nil : Branches [] := by
  intro condition h
  rw [List.append_nil]
  exact h.plain

theorem lastBranch_name : LastBranch [⟨.symbol .colon, 0⟩, ⟨.name "x", 0⟩] :=
  ⟨0, _, rfl, forms_expression_name⟩

theorem moreEnclosed_close {p : Nat} : MoreEnclosed [⟨.symbol .closeParen, p⟩] :=
  fun arg h => ⟨arg, p, rfl, h.one⟩

/-! ### The readers -/

/-- What becomes of reading a closing parenthesis. -/
theorem readClosing_reading {β : Type} (value : β) (limit opened endPos : Nat)
    (tokens : List Token) :
    Reading (fun row => ∃ p, row = [⟨.symbol .closeParen, p⟩])
      (fun row e => row = [] ∧ e = .unbalanced opened)
      (fun endPos tokens => do
        let rest ← readClosing ⟨endPos, limit⟩ opened tokens
        return (value, rest)) endPos tokens := by
  have closed : ∃ p, [⟨.symbol .closeParen, 0⟩] = [(⟨.symbol .closeParen, p⟩ : Token)] := ⟨0, rfl⟩
  rcases starts_or_ne .closeParen tokens with ⟨p, later, rfl⟩ | noClose
  · exact .cons (fun _ _ => rfl) (.stop value ⟨p, rfl⟩ fun _ _ _ => rfl)
  · cases tokens with
    | nil =>
      rw [← List.nil_append [_]] at closed
      exact .ended closed ⟨rfl, rfl⟩ rfl
    | cons token later =>
      rw [← List.nil_append [_]] at closed
      refine .blamed rfl closed ⟨.closeParen, rfl⟩ fun endPos later' => ?_
      have refused := @ne_of_head? _ _ (token :: later') noClose rfl
      dsimp only [List.nil_append]
      rw [readClosing]
      · rfl
      · exact refused
      · nofun

/-- What becomes of reading a second branch, by what becomes of expressions. -/
theorem readLastBranch_reading {a b : Expr}
    (ih : ∀ later, later.length < tokens.length →
      Reading (Forms IsExpression) (Unfinished endPos)
        (fun endPos => readExpression ⟨endPos, limit⟩ room) endPos later) :
    Reading LastBranch (Unfinished endPos) (fun endPos => readLastBranch ⟨endPos, limit⟩ room a b)
      endPos tokens := by
  rcases starts_or_ne .colon tokens with ⟨p, later, rfl⟩ | noColon
  · refine .cons (fun _ _ => rfl) (.map (fun c => .conditional a b c) (fun _ _ => rfl)
      (ih later (Nat.lt_succ_self _)) ?_ ?_)
    · exact fun row h => ⟨p, row, rfl, h⟩
    · exact fun e h => h.cons
  · refine .unexpected limit .colon lastBranch_name (fun endPos tokens' hhead => ?_) .ends
    rw [readLastBranch]
    exact ne_of_head? noColon hhead

/-- What becomes of reading both branches, by what becomes of expressions. -/
theorem readBranches_reading {a : Expr}
    (ih : ∀ later, later.length < tokens.length →
      Reading (Forms IsExpression) (Unfinished endPos)
        (fun endPos => readExpression ⟨endPos, limit⟩ room) endPos later) :
    Reading Branches (Unfinished endPos) (fun endPos => readBranches ⟨endPos, limit⟩ room a)
      endPos tokens := by
  rcases starts_or_ne .question tokens with ⟨p, later, rfl⟩ | noQuestion
  · have lastBranch (b : Expr) (rest : List Token)
        (hb : readExpression ⟨endPos, limit⟩ room later = .ok (b, rest)) :
        Reading LastBranch (Unfinished endPos)
          (fun endPos => readLastBranch ⟨endPos, limit⟩ room a b) endPos rest := by
      have short := Front.shorter_of_pair hb
      exact readLastBranch_reading fun later' hlater => ih later' (by rw [List.length_cons]; omega)
    refine .cons (fun _ _ => rfl) (.bind (fun _ _ => rfl) (ih later (Nat.lt_succ_self _))
      lastBranch ?_ ⟨_, lastBranch_name⟩ ?_ ?_)
    · rintro branch _ hbranch ⟨q, branch', rfl, hbranch'⟩ condition hcondition
      exact hcondition.conditional hbranch hbranch'
    · exact fun e h => h.cons
    · exact fun taken rest e _ h => (h.append taken).cons
  · refine .stop a branches_nil fun endPos tokens' hhead => ?_
    rw [readBranches]
    · rfl
    · exact ne_of_head? noQuestion hhead

/-- What becomes of reading on after an argument, by what becomes of the arguments after it. -/
theorem readMore_reading {arg : Expr}
    (ih : ∀ later, later.length < tokens.length →
      Reading Enclosed (UnfinishedArguments endPos pos)
        (fun endPos => readArgumentsFrom ⟨endPos, limit⟩ pos room) endPos later) :
    Reading MoreEnclosed
      (fun row e => ∀ before, Forms IsExpression before →
        UnfinishedArguments endPos pos (before ++ row) e)
      (fun endPos => readMore ⟨endPos, limit⟩ pos room arg) endPos tokens := by
  rcases starts_or_ne .comma tokens with ⟨p, later, rfl⟩ | noComma
  · refine .cons (fun _ _ => rfl) (.map (fun others => arg :: others) (fun _ _ => rfl)
      (ih later (Nat.lt_succ_self _)) ?_ ?_)
    · rintro _ ⟨args, q, rfl, hargs⟩ before hbefore
      exact ⟨_, q, by simp, hbefore.more (p := p) hargs⟩
    · rintro e (h | ⟨rfl, hargs⟩) before hbefore
      · exact .inl ((h.cons).append before)
      · exact .inr ⟨rfl, hbefore.more hargs⟩
  · refine .congr (.mono (readClosing_reading [arg] limit pos endPos tokens) ?_ ?_)
      fun endPos tokens' hhead => ?_
    · rintro _ ⟨p, rfl⟩
      exact moreEnclosed_close
    · rintro e ⟨rfl, rfl⟩ before hbefore
      rw [List.append_nil]
      exact .inr ⟨rfl, hbefore.one⟩
    · rw [readMore]
      exact ne_of_head? noComma hhead

mutual

/-- **What becomes of reading an expression.** -/
theorem readExpression_reading (limit room endPos : Nat) (tokens : List Token) :
    Reading (Forms IsExpression) (Unfinished endPos)
      (fun endPos => readExpression ⟨endPos, limit⟩ room) endPos tokens := by
  cases room with
  | zero => exact .tooDeep readExpression_zero
  | succ room =>
    have branches (a : Expr) (rest : List Token)
        (ha : readOperation ⟨endPos, limit⟩ 0 room tokens = .ok (a, rest)) :
        Reading Branches (Unfinished endPos) (fun endPos => readBranches ⟨endPos, limit⟩ room a)
          endPos rest := by
      have short := Front.shorter_of_pair ha
      exact readBranches_reading fun later hlater => readExpression_reading limit room endPos later
    exact .bind (fun _ _ => readExpression_succ)
      (readOperation_reading limit room endPos tokens (Nat.zero_le 6)) branches
      (fun condition row hcondition hrow => hrow condition hcondition) ⟨_, branches_nil⟩
      (fun e h => h) fun condition rest e _ h => h.append condition
termination_by 10 * tokens.length + 9

/-- What becomes of reading an operation. -/
theorem readOperation_reading {level : Nat} (limit room endPos : Nat) (tokens : List Token)
    (hl : level ≤ 6) :
    Reading (Forms (IsOperation level)) (Unfinished endPos)
      (fun endPos => readOperation ⟨endPos, limit⟩ level room) endPos tokens := by
  rcases Nat.eq_or_lt_of_le hl with rfl | hlt
  · refine .congr (.mono (readOperand_reading limit room endPos tokens) ?_ fun e h => h)
      fun _ _ _ => readOperation_of_le (Nat.le_refl 6)
    exact fun row h => h.operation (Nat.le_refl 6)
  · have chain (left : Expr) (rest : List Token)
        (hleft : readOperation ⟨endPos, limit⟩ (level + 1) room tokens = .ok (left, rest)) :
        Reading (Continues level) (Unfinished endPos)
          (fun endPos => readChain ⟨endPos, limit⟩ level room left) endPos rest := by
      have short := Front.shorter_of_pair hleft
      exact readChain_reading left limit room endPos rest
    exact .bind (fun _ _ => readOperation_of_lt hlt)
      (readOperation_reading limit room endPos tokens hlt) chain
      (fun before row hbefore hrow => hrow before (hbefore.tighter hlt)) ⟨_, continues_nil⟩
      (fun e h => h) fun before rest e _ h => h.append before
termination_by 10 * tokens.length + 2 + (6 - level)

/-- What becomes of reading the rest of an operation. -/
theorem readChain_reading {level : Nat} (left : Expr) (limit room endPos : Nat)
    (tokens : List Token) :
    Reading (Continues level) (Unfinished endPos)
      (fun endPos => readChain ⟨endPos, limit⟩ level room left) endPos tokens := by
  cases tokens with
  | nil => exact .whole continues_nil readChain_nil
  | cons token tokens =>
    cases hop : operatorAt? level token.lexeme with
    | none => exact .upTo rfl continues_nil fun _ _ => readChain_of_none hop
    | some op =>
      obtain ⟨lexeme, p⟩ := token
      obtain ⟨symbol, rfl, hmem⟩ := operatorAt?_eq_some_iff.1 hop
      -- the loop takes one operator and its right side, then goes on with the longer operation
      have again (right : Expr) (rest : List Token)
          (hright : readOperation ⟨endPos, limit⟩ (level + 1) room tokens = .ok (right, rest)) :
          Reading (Continues level) (Unfinished endPos)
            (fun endPos => readChain ⟨endPos, limit⟩ level room (.binary op left right)) endPos
            rest := by
        have short := Front.shorter_of_pair hright
        exact readChain_reading (.binary op left right) limit room endPos rest
      refine .cons (fun _ _ => readChain_of_some hop) (.bind (fun _ _ => rfl)
        (readOperation_reading limit room endPos tokens (lt_of_mem_operators hmem)) again ?_
        ⟨_, continues_nil⟩ (fun e h => h.cons) fun right rest e _ h => (h.append right).cons)
      intro right row hright hrow before hbefore
      have joined := hrow _ (hbefore.joined (p := p) hmem hright)
      rwa [List.append_assoc, List.cons_append] at joined
termination_by 10 * tokens.length + 9

/-- What becomes of reading an operand. -/
theorem readOperand_reading (limit room endPos : Nat) (tokens : List Token) :
    Reading (Forms IsOperand) (Unfinished endPos)
      (fun endPos => readOperand ⟨endPos, limit⟩ room) endPos tokens := by
  cases tokens with
  | nil => exact .ended (List.nil_append [_] ▸ forms_operand_name) .ends readOperand_nil
  | cons token tokens =>
    cases hop : unaryOp? token.lexeme with
    | none =>
      refine .congr (.mono (readAtom_reading limit room endPos (token :: tokens))
        (fun row h => h.atom) fun e h => h) fun endPos tokens' hhead => ?_
      obtain ⟨later, rfl⟩ := List.head?_eq_some_iff.1 hhead
      exact readOperand_of_none hop
    | some op =>
      obtain ⟨lexeme, p⟩ := token
      obtain ⟨symbol, rfl, hmem⟩ := unaryOp?_eq_some_iff.1 hop
      cases room with
      | zero => exact .tooDeep (readOperand_zero hop)
      | succ room =>
        exact .cons (fun _ _ => readOperand_succ hop) (.map (.unary op) (fun _ _ => rfl)
          (readOperand_reading limit room endPos tokens) (fun row h => h.unary hmem)
          fun e h => h.cons)
termination_by 10 * tokens.length + 1

/-- What becomes of reading an atom. -/
theorem readAtom_reading (limit room endPos : Nat) (tokens : List Token) :
    Reading (Forms IsAtom) (Unfinished endPos) (fun endPos => readAtom ⟨endPos, limit⟩ room)
      endPos tokens := by
  -- wherever an atom is due a name will do, which makes every row before it viable
  have name : Forms IsAtom [⟨.name "x", 0⟩] := .var
  match tokens with
  | [] => exact .ended (List.nil_append [_] ▸ name) .ends readAtom_nil
  | ⟨.number value, p⟩ :: tokens =>
    exact .cons (fun _ _ => readAtom_number) (.stop (.number value) .number fun _ _ _ => rfl)
  | ⟨.name name, p⟩ :: tokens =>
    refine .cons (fun _ _ => rfl) ?_
    rcases starts_or_ne .openParen tokens with ⟨q, later, rfl⟩ | noCall
    · refine .cons (fun _ _ => readAtom_call) (.map (.call name) (fun _ _ => rfl)
        (readArguments_reading limit room p endPos later) ?_ ?_)
      · rintro _ (⟨r, rfl⟩ | ⟨args, r, rfl, hargs⟩)
        · exact .bareCall
        · exact hargs.call
      · rintro e (h | ⟨rfl, hargs⟩)
        · exact h.cons.cons
        · exact .call hargs
    · exact .stop (.var name) .var
        fun endPos tokens' hhead => readAtom_var (ne_of_head? noCall hhead)
  | ⟨.symbol s, p⟩ :: tokens =>
    by_cases hs : s = .openParen
    · subst hs
      refine .cons (fun _ _ => readAtom_group) (.bind (fun _ _ => rfl)
        (readExpression_reading limit room endPos tokens)
        (fun inner rest _ => readClosing_reading inner limit p endPos rest) ?_ ⟨_, 0, rfl⟩
        (fun e h => h.cons) ?_)
      · rintro inner _ hinner ⟨q, rfl⟩
        exact hinner.group
      · rintro inner _ _ hinner ⟨rfl, rfl⟩
        rw [List.append_nil]
        exact .group hinner
    · refine .unexpected limit .operand name (fun endPos tokens' hhead => ?_) .ends
      obtain ⟨later, rfl⟩ := List.head?_eq_some_iff.1 hhead
      exact readAtom_symbol hs
termination_by 10 * tokens.length

/-- What becomes of reading arguments, perhaps none. -/
theorem readArguments_reading (limit room pos endPos : Nat) (tokens : List Token) :
    Reading (fun row => (∃ p, row = [⟨.symbol .closeParen, p⟩]) ∨ Enclosed row)
      (UnfinishedArguments endPos pos) (fun endPos => readArguments ⟨endPos, limit⟩ pos room)
      endPos tokens := by
  rcases starts_or_ne .closeParen tokens with ⟨p, later, rfl⟩ | noClose
  · exact .cons (fun _ _ => readArguments_close) (.stop [] (.inl ⟨p, rfl⟩) fun _ _ _ => rfl)
  · exact .congr (.mono (readArgumentsFrom_reading limit room pos endPos tokens)
      (fun row h => .inr h) fun e h => h)
      fun endPos tokens' hhead => readArguments_of_ne (ne_of_head? noClose hhead)
termination_by 10 * tokens.length + 11

/-- What becomes of reading one argument or more. -/
theorem readArgumentsFrom_reading (limit room pos endPos : Nat) (tokens : List Token) :
    Reading Enclosed (UnfinishedArguments endPos pos)
      (fun endPos => readArgumentsFrom ⟨endPos, limit⟩ pos room) endPos tokens := by
  refine .bind (fun _ _ => readArgumentsFrom_eq) (readExpression_reading limit room endPos tokens)
    (fun arg rest harg => readMore_reading fun later hlater => ?_)
    (fun arg row harg hrow => hrow arg harg) ⟨[⟨.symbol .closeParen, 0⟩], moreEnclosed_close⟩
    (fun e h => .inl h) (fun arg rest e harg h => h arg harg)
  have short := Front.shorter_of_pair harg
  exact readArgumentsFrom_reading limit room pos endPos later
termination_by 10 * tokens.length + 10

end

/-! ### The whole row -/

/-- This token of the row is the first one with which the row is not viable any more. -/
def FirstHopeless (tokens : List Token) (token : Token) : Prop :=
  ∃ before later, tokens = before ++ token :: later ∧ Viable before ∧ ¬ Viable (before ++ [token])

/-- What an error says about the row it is reported for. -/
inductive Located (tokens : List Token) : GrammarError → Prop
  | token {lexeme : Lexeme} {pos : Nat} {expected : Expected} :
      FirstHopeless tokens ⟨lexeme, pos⟩ →
      Located tokens (.unexpected pos expected (some lexeme))
  | surplus {pos : Nat} : FirstHopeless tokens ⟨.symbol .closeParen, pos⟩ →
      Located tokens (.unbalanced pos)
  | unfinished {e : GrammarError} : Unfinished (endOf tokens) tokens e → Viable tokens →
      ¬ Accepted tokens → Located tokens e

/-- **A row that forms an expression is accepted at some limit.** -/
theorem accepted_of_forms (h : Forms IsExpression tokens) : Accepted tokens := by
  obtain ⟨row, tree, htokens, hrow⟩ := h 0
  refine ⟨nesting row, tree, ?_⟩
  rw [parse_of_derives (nesting row) ⟨row, htokens, hrow, rfl⟩, if_pos (Nat.le_refl _)]

/-- What is refused at one limit for another reason than its nesting is refused at every limit. -/
theorem not_accepted {e : GrammarError} (h : parse limit tokens = .error e)
    (hroom : e ≠ .tooDeep limit) : ¬ Accepted tokens := by
  rintro ⟨limit', tree, haccepted⟩
  rcases Nat.le_total limit limit' with hle | hle
  · rcases parse_roomier hle tokens with heq | ⟨e', hdeep, herror⟩
    · rw [h, haccepted] at heq
      cases heq
    · rw [h] at herror
      cases herror
      exact hroom hdeep
  · have := (parse_roomier hle tokens).eq_ok haccepted
    rw [h] at this
    cases this

/-- A token is the first hopeless one if the tokens before it begin an expression and the error is
the same whatever stands behind it. -/
theorem firstHopeless_of_stable {before later more : List Token} {token : Token} {e : GrammarError}
    (htokens : tokens = before ++ token :: later) (hbegun : Forms IsExpression (before ++ more))
    (hstable : ∀ later, parse limit (before ++ token :: later) = .error e)
    (hroom : e ≠ .tooDeep limit) : FirstHopeless tokens token := by
  refine ⟨before, later, htokens, ⟨more, accepted_of_forms hbegun⟩, ?_⟩
  rintro ⟨more', haccepted⟩
  rw [List.append_assoc, List.singleton_append] at haccepted
  exact not_accepted (hstable more') hroom haccepted

/-- After an expression was read, what stands behind it decides. -/
theorem parse_of_read {r : Expr × List Token} (hne : tokens ≠ [])
    (h : readExpression ⟨endOf tokens, limit⟩ limit tokens = .ok r) :
    parse limit tokens = readEnd ⟨endOf tokens, limit⟩ r.1 r.2 := by
  obtain ⟨token, tokens, rfl⟩ := List.exists_cons_of_ne_nil hne
  rw [parse_cons, h]
  rfl

/-- Where no expression is read, the row is refused for the same reason. -/
theorem parse_of_refused {e : GrammarError} (hne : tokens ≠ [])
    (h : readExpression ⟨endOf tokens, limit⟩ limit tokens = .error e) :
    parse limit tokens = .error e := by
  obtain ⟨token, tokens, rfl⟩ := List.exists_cons_of_ne_nil hne
  rw [parse_cons, h]
  rfl

/-- A parenthesis behind the expression is one too many, and anything else was not expected. -/
theorem readEnd_cons {frame : Frame} {tree : Expr} (lexeme : Lexeme) (pos : Nat)
    (later : List Token) : readEnd frame tree (⟨lexeme, pos⟩ :: later) = .error
      (if lexeme = .symbol .closeParen then .unbalanced pos
        else .unexpected pos .operatorOrEnd (some lexeme)) := by
  split
  · next h =>
    rw [h]
    rfl
  · next h =>
    rw [readEnd]
    · rfl
    · exact List.cons_ne_nil _ _
    · rintro p rest heq
      cases heq
      exact h rfl

/-- **The parser complains about the first hopeless token**, or it finds the row unfinished. -/
theorem located_of_parse {e : GrammarError} (hne : tokens ≠ []) (h : parse limit tokens = .error e)
    (hroom : e ≠ .tooDeep limit) : Located tokens e := by
  cases readExpression_reading limit limit (endOf tokens) tokens with
  | @upTo taken later token tree htokens htaken hok =>
    obtain ⟨lexeme, pos⟩ := token
    -- an expression ends before the token, so the row before it is accepted as it stands
    have stable (later : List Token) : parse limit (taken ++ ⟨lexeme, pos⟩ :: later) = .error
        (if lexeme = .symbol .closeParen then .unbalanced pos
          else .unexpected pos .operatorOrEnd (some lexeme)) := by
      rw [parse_of_read (by simp) (hok _ later), readEnd_cons]
    rw [htokens, stable, Except.error.injEq] at h
    subst h
    have hbegun : Forms IsExpression (taken ++ []) := by rwa [List.append_nil]
    have hopeless := firstHopeless_of_stable htokens hbegun stable hroom
    split
    · next hclose =>
      subst hclose
      exact .surplus hopeless
    · exact .token hopeless
  | whole hwhole hok =>
    rw [parse_of_read hne hok] at h
    cases h
  | @blamed before later more token e' htokens hbegun hblames herror =>
    have stable (later : List Token) : parse limit (before ++ token :: later) = .error e' :=
      parse_of_refused (by simp) (herror _ later)
    rw [htokens, stable, Except.error.injEq] at h
    subst h
    obtain ⟨expected, rfl⟩ := hblames
    exact .token (firstHopeless_of_stable htokens hbegun stable hroom)
  | ended hbegun he herror =>
    have hrefused := not_accepted h hroom
    rw [parse_of_refused hne herror, Except.error.injEq] at h
    subst h
    exact .unfinished he ⟨_, accepted_of_forms hbegun⟩ hrefused
  | tooDeep hdeep =>
    have hparse := parse_of_refused hne hdeep
    rw [hparse, Except.error.injEq] at h
    subst h
    cases parse_complains limit hne _ hparse
    exact absurd rfl hroom

/-- **Syntax errors are reported at the first token that makes the formula hopeless.**  The places
of the tokens that the scanner finds increase, so that a place stands for one token.  For a row of
such tokens that is refused, but not for its nesting, a token that is found, or a parenthesis that
closes nothing, is the first with which the row is not viable; in every other case the row is
viable, without being accepted, and nothing closes the parenthesis that is reported. -/
theorem syntax_error_at_first_hopeless {source : String} {bound limit : Nat} {tokens : List Token}
    {e : GrammarError} (hscan : scan bound source = .ok tokens) (hne : tokens ≠ [])
    (hparse : parse limit tokens = .error e) (hroom : e ≠ .tooDeep limit) :
    (tokens.Pairwise fun t t' => t.pos < t'.pos) ∧ Located tokens e :=
  ⟨pairwise_of_scan hscan, located_of_parse hne hparse hroom⟩

/-- `ones twos` is hopeless from the second name on, the parenthesis in `ones)` closes nothing, and
`max(ones` can still become a formula. -/
theorem syntax_error_at_second_name :
    FirstHopeless [⟨.name "ones", 0⟩, ⟨.name "twos", 5⟩] ⟨.name "twos", 5⟩ ∧
    FirstHopeless [⟨.name "ones", 0⟩, ⟨.symbol .closeParen, 4⟩] ⟨.symbol .closeParen, 4⟩ ∧
    Viable [⟨.name "max", 0⟩, ⟨.symbol .openParen, 3⟩, ⟨.name "ones", 4⟩] ∧
    ¬ Accepted [⟨.name "max", 0⟩, ⟨.symbol .openParen, 3⟩, ⟨.name "ones", 4⟩] := by
  have names : scan 9 "ones twos" = .ok [⟨.name "ones", 0⟩, ⟨.name "twos", 5⟩] := by cbv
  have surplus : scan 9 "ones)" = .ok [⟨.name "ones", 0⟩, ⟨.symbol .closeParen, 4⟩] := by cbv
  have unclosed : scan 9 "max(ones" =
      .ok [⟨.name "max", 0⟩, ⟨.symbol .openParen, 3⟩, ⟨.name "ones", 4⟩] := by cbv
  have hnames : parse 4 [⟨.name "ones", 0⟩, ⟨.name "twos", 5⟩] =
      .error (.unexpected 5 .operatorOrEnd (some (.name "twos"))) := by cbv
  have hsurplus : parse 4 [⟨.name "ones", 0⟩, ⟨.symbol .closeParen, 4⟩] =
      .error (.unbalanced 4) := by cbv
  have hunclosed : parse 4 [⟨.name "max", 0⟩, ⟨.symbol .openParen, 3⟩, ⟨.name "ones", 4⟩] =
      .error (.unbalanced 0) := by cbv
  obtain ⟨-, located⟩ := syntax_error_at_first_hopeless names (by decide) hnames (by decide)
  obtain ⟨-, located'⟩ := syntax_error_at_first_hopeless surplus (by decide) hsurplus (by decide)
  obtain ⟨-, located''⟩ :=
    syntax_error_at_first_hopeless unclosed (by decide) hunclosed (by decide)
  refine ⟨?_, ?_, ?_⟩
  · cases located with
    | token h => exact h
    | unfinished h => exact absurd rfl (h.ne_found _ _)
  · cases located' with
    | surplus h => exact h
    | unfinished h =>
      obtain ⟨token, hmem, hpos, hlexeme⟩ := h.exists_unclosed rfl
      simp only [List.mem_cons, List.not_mem_nil, or_false] at hmem
      rcases hmem with rfl | rfl
      · cases hpos
      · exact absurd rfl hlexeme
  · cases located'' with
    | surplus h =>
      obtain ⟨before, later, htokens, -⟩ := h
      have : (⟨.symbol .closeParen, 0⟩ : Token) ∈ before ++ ⟨.symbol .closeParen, 0⟩ :: later := by
        simp
      rw [← htokens] at this
      simp at this
    | unfinished _ hviable hrefused => exact ⟨hviable, hrefused⟩

end Grammar
end Formula
end GuildRating
