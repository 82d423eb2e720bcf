/-
# Why a text is refused

A text with something other than blanks in it has at least one token, so it is never refused for
being empty: either it cannot be split into tokens, or the parser stops at one of them or for want
of room, or the check refuses its tree (`compile_refuses`).  Once it is compiled, only arithmetic
keeps it from a value (`evaluate_of_compile`).
-/

import GuildRating.Proofs.Check.Sound
import GuildRating.Proofs.Grammar.Complaints
import GuildRating.Proofs.Spelling

namespace GuildRating
namespace Formula

variable {limits : Limits} {source : String}

/-- The error of a text that is not blank and yet no formula. -/
inductive Error.Refusal : Error → Prop where
  | scan (e : ScanError) : Refusal (.scan e)
  | grammar {e : GrammarError} : e ≠ .empty → Refusal (.grammar e)
  | check (e : CheckError) : Refusal (.check e)

/-- Only blanks are split into no tokens at all. -/
theorem isBlank_of_scanFrom {pos : Nat} {text : List Char} (h : scanFrom pos text = .ok []) :
    ∀ c ∈ text, Text.isBlank c = true := by
  induction text generalizing pos with
  | nil => exact List.forall_mem_nil _
  | cons c rest ih =>
    cases hc : Text.isBlank c with
    | true =>
      rw [scanFrom_blank hc] at h
      exact List.forall_mem_cons.2 ⟨hc, ih h⟩
    | false =>
      rw [scanFrom_lexeme hc] at h
      obtain ⟨first, -, h⟩ := bind_eq_ok.1 h
      obtain ⟨later, -, h⟩ := bind_eq_ok.1 h
      cases h

/-- A text that is not blank has a token. -/
theorem ne_nil_of_scan {limit : Nat} {tokens : List Token} (hvisible : Text.allBlank source = false)
    (h : scan limit source = .ok tokens) : tokens ≠ [] := by
  rintro rfl
  rw [scan_of_le (length_le_of_scan h)] at h
  have blank : Text.allBlank source = true := List.all_eq_true.2 (isBlank_of_scanFrom h)
  rw [hvisible] at blank
  cases blank

/-- Reading a text that is not blank fails only over what is in it. -/
theorem read_refuses (limits : Limits) (hvisible : Text.allBlank source = false) :
    StopsWith Error.Refusal (read limits source) := by
  rw [read]
  have scanned := StopsWith.of_mapError (scan limits.maxLength source) Error.Refusal.scan
  refine scanned.bind fun tokens htokens => ?_
  have hne := ne_nil_of_scan hvisible (mapError_eq_ok.1 htokens)
  exact (Expr.parse_complains limits.maxDepth hne).mapError fun e he => .grammar he.ne_empty

/-- **A text that is not blank is refused for its tokens, its grammar or its tree**, if it is
refused. -/
theorem compile_refuses (limits : Limits) (hvisible : Text.allBlank source = false) :
    StopsWith Error.Refusal (compile limits source) := by
  rw [compile]
  refine (read_refuses limits hvisible).bind fun tree _ => ?_
  have checked := StopsWith.of_mapError (tree.check .full limits) Error.Refusal.check
  exact checked.bind fun _ _ => .ok _

/-- What compiles has passed the check. -/
theorem check_of_compile {formula : Formula} (h : compile limits source = .ok formula) :
    formula.tree.check .full limits = .ok () := by
  rw [compile] at h
  obtain ⟨tree, -, h⟩ := bind_eq_ok.1 h
  obtain ⟨⟨⟩, hcheck, h⟩ := bind_eq_ok.1 h
  cases h
  exact mapError_eq_ok.1 hcheck

/-- It is the numbers that keep a formula from a value. -/
inductive EvalError.IsArithmetic : EvalError → Prop where
  | divisionByZero : IsArithmetic .divisionByZero
  | invalidOperation {op : String} {operands : List Double} :
      IsArithmetic (.invalidOperation op operands)
  | nonFinite {op : String} : IsArithmetic (.nonFinite op)

/-- An evaluation that does not stop at a name stops for the sake of arithmetic. -/
theorem Settled.isArithmetic {α : Type} {x : Except EvalError α} (h : Settled x) :
    StopsWith EvalError.IsArithmetic x := by
  intro e he
  cases e with
  | divisionByZero => exact .divisionByZero
  | invalidOperation op operands => exact .invalidOperation
  | nonFinite op => exact .nonFinite
  | unresolved name => exact absurd he (h name)

/-- **Only arithmetic keeps a compiled formula from a value.** -/
theorem evaluate_of_compile {formula : Formula} (h : compile limits source = .ok formula)
    (player : Player) :
    StopsWith (fun e => ∃ e' : EvalError, e'.IsArithmetic ∧ e = .eval e')
      (formula.evaluate player) := by
  have resolved := (Expr.check_eq_ok_iff.1 (check_of_compile h)).2.2
  have settled : Settled (formula.tree.eval .full (.ofPlayer player)) :=
    Expr.settled_eval formula.tree resolved
  exact settled.isArithmetic.mapError fun e he => ⟨e, he, rfl⟩

end Formula
end GuildRating
