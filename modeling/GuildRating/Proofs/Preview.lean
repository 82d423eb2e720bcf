/-
# What is previewed is what players get

A preview, the verdict that is given before a formula is stored and the rating of a player compile
the formula each for itself, and the rating leaves a blank formula out before it compiles anything.
They come to the same (`preview_foretells_rating`): the preview shows a value exactly when players
are rated by it, an error exactly when a sound formula fails for this player, and neither of the two
when the formula fails for every player.
-/

import GuildRating.Formula.Answers
import GuildRating.Proofs.Config.Checked

namespace GuildRating
namespace Formula

variable {limits : Limits} {source : String} {formula : Formula} {config : Config}

/-- A text of blanks has no tokens, so it is no formula. -/
theorem allBlank_of_compile (h : compile limits source = .ok formula) :
    Text.allBlank source = false := by
  have scanned (text : List Char) (pos : Nat) (hblank : ∀ c ∈ text, Text.isBlank c = true) :
      scanFrom pos text = .ok [] := by
    induction text generalizing pos with
    | nil => exact scanFrom_nil
    | cons c rest ih =>
      obtain ⟨hc, hrest⟩ := List.forall_mem_cons.1 hblank
      rw [scanFrom_blank hc, ih (pos + 1) hrest]
  obtain ⟨-, -, hread⟩ := compile_eq_ok h
  obtain ⟨-, tokens, hscan, hparse⟩ := read_eq_ok hread
  cases hblank : Text.allBlank source with
  | false => rfl
  | true =>
    rw [scanned _ 0 (List.all_eq_true.1 hblank)] at hscan
    cases hscan
    rw [Expr.parse_nil] at hparse
    cases hparse

/-- A preview of a formula shows what comes of rating this player under a configuration with it. -/
structure Preview.Foretells (preview : Preview) (source : String) (config : Config)
    (player : Player) : Prop where
  verdict : preview.verdict = judge .standard source
  isAccepted_iff : preview.verdict.isAccepted = true ↔
    ∃ formula, compile .standard source = .ok formula
  /-- The verdict on a formula tells the text to store. -/
  accepted : ∀ formula, compile .standard source = .ok formula → preview.verdict.toJson =
    .record [("valid", .bool true), ("normalizedFormula", .text (Text.collapse source))]
  /-- The verdict on any other text tells what is wrong with it. -/
  refused : ∀ e, compile .standard source = .error e → preview.verdict.toJson =
    .record [("valid", .bool false), ("error", .text e.message)]
  result?_eq_some_iff : ∀ value, preview.result? = some value ↔
    Rating.rate config player = .ok value
  error?_eq_some_iff : ∀ text, preview.error?.map Error.message = some text ↔
    (∃ formula, compile .standard source = .ok formula) ∧
      ∃ e : EvalError, Rating.rate config player = .error (.formula (.eval e)) ∧ e.message = text
  /-- Under a sound formula there is no other failure than these. -/
  isSome_error?_iff : preview.error?.isSome = true ↔
    (∃ formula, compile .standard source = .ok formula) ∧
      ∃ e, Rating.rate config player = .error e
  exclusive : preview.result? = none ∨ preview.error? = none
  neither_iff : preview.result? = none ∧ preview.error? = none ↔
    ∃ e, compile .standard source = .error e
  /-- A text that is no formula fails for every player. -/
  fails : ∀ e, compile .standard source = .error e → ∀ player, Rating.rate config player =
    .error (if Text.allBlank source then .missingFormula else .formula e)
  player : preview.player = player

/-- A formula that is not blank counts as set. -/
theorem formula?_of_allBlank_eq_false (hf : config.formula = some source)
    (h : Text.allBlank source = false) : config.formula? = some source := by
  rw [Config.formula?, hf, Option.filter_some, h]
  rfl

/-- A text that does not compile fails for every player, a blank one as if none were set. -/
theorem rate_of_compile_eq_error {e : Error} (h : config.algorithm = .custom)
    (hf : config.formula = some source) (he : compile .standard source = .error e)
    (player : Player) : Rating.rate config player =
      .error (if Text.allBlank source then .missingFormula else .formula e) := by
  cases hblank : Text.allBlank source with
  | true =>
    have hnone : config.formula? = none := by
      rw [Config.formula?, hf, Option.filter_some, hblank]
      rfl
    rw [Rating.rate_missing h hnone, if_pos rfl]
  | false =>
    rw [Config.rate_refused h (formula?_of_allBlank_eq_false hf hblank) he,
      if_neg Bool.false_ne_true]

/-- The three outcomes of a preview, each with what players get. -/
inductive Preview.Outcome (source : String) (config : Config) (player : Player) : Preview → Prop
  | value {formula : Formula} {value : Double} : compile .standard source = .ok formula →
      Rating.rate config player = .ok value →
      Outcome source config player ⟨.accepted (Text.collapse source), some (.ok value), player⟩
  | failure {formula : Formula} {e : EvalError} : compile .standard source = .ok formula →
      Rating.rate config player = .error (.formula (.eval e)) →
      Outcome source config player
        ⟨.accepted (Text.collapse source), some (.error (.eval e)), player⟩
  | refusal {e : Error} : compile .standard source = .error e →
      (∀ player, Rating.rate config player =
        .error (if Text.allBlank source then .missingFormula else .formula e)) →
      Outcome source config player ⟨.refused e, none, player⟩

/-- **A preview comes out as the rating does**, in one of three ways. -/
theorem preview_outcome (h : config.algorithm = .custom) (hf : config.formula = some source)
    (player : Player) : Preview.Outcome source config player (preview source player) := by
  cases hcompile : compile .standard source with
  | error e =>
    have hpreview : preview source player = ⟨.refused e, none, player⟩ := by
      rw [preview, hcompile]
    rw [hpreview]
    exact .refusal hcompile (rate_of_compile_eq_error h hf hcompile)
  | ok formula =>
    obtain ⟨-, hnormalized, -⟩ := compile_eq_ok hcompile
    have hpreview : preview source player =
        ⟨.accepted (Text.collapse source), some (formula.evaluate player), player⟩ := by
      rw [preview, hcompile, ← hnormalized]
    have hset := formula?_of_allBlank_eq_false hf (allBlank_of_compile hcompile)
    have hrate := Config.rate_compiled h hset hcompile player
    rw [hpreview]
    cases hvalue : formula.evaluate player with
    | ok value =>
      rw [hvalue] at hrate
      exact .value hcompile hrate
    | error e =>
      obtain ⟨e, -, rfl⟩ := evaluate_of_compile hcompile player e hvalue
      rw [hvalue] at hrate
      exact .failure hcompile hrate

/-- A formula that compiles is accepted with its spaces collapsed. -/
theorem judge_of_compile (h : compile .standard source = .ok formula) :
    judge .standard source = .accepted (Text.collapse source) := by
  rw [judge, h]
  exact congrArg Verdict.accepted (compile_eq_ok h).2.1

/-- Each outcome shows what there is to be foretold. -/
theorem Preview.Outcome.foretells {preview : Preview} {player : Player}
    (h : Preview.Outcome source config player preview) :
    preview.Foretells source config player := by
  cases h with
  | value hcompile hrate =>
    exact
      { verdict := (judge_of_compile hcompile).symm
        isAccepted_iff := by simp [Verdict.isAccepted, hcompile]
        accepted := fun _ _ => rfl
        refused := by simp [hcompile]
        result?_eq_some_iff := by simp [result?, hrate]
        error?_eq_some_iff := by simp [error?, hrate]
        isSome_error?_iff := by simp [error?, hrate]
        exclusive := .inr rfl
        neither_iff := by simp [result?, hcompile]
        fails := by simp [hcompile]
        player := rfl }
  | failure hcompile hrate =>
    exact
      { verdict := (judge_of_compile hcompile).symm
        isAccepted_iff := by simp [Verdict.isAccepted, hcompile]
        accepted := fun _ _ => rfl
        refused := by simp [hcompile]
        result?_eq_some_iff := by simp [result?, hrate]
        error?_eq_some_iff := by simp [error?, hcompile, hrate, Error.message]
        isSome_error?_iff := by simp [error?, hcompile, hrate]
        exclusive := .inl rfl
        neither_iff := by simp [error?, hcompile]
        fails := by simp [hcompile]
        player := rfl }
  | refusal hcompile hrate =>
    exact
      { verdict := by rw [judge, hcompile]
        isAccepted_iff := by simp [Verdict.isAccepted, hcompile]
        accepted := by simp [hcompile]
        refused := by simp [hcompile, Verdict.toJson]
        result?_eq_some_iff := by simp [result?, hrate]
        error?_eq_some_iff := by simp [error?, hcompile]
        isSome_error?_iff := by simp [error?, hcompile]
        exclusive := .inl rfl
        neither_iff := by simp [result?, error?, hcompile]
        fails := by simpa [hcompile] using hrate
        player := rfl }

/-- **What is previewed is what players get.**  For every text, every player and every configuration
with the text as its formula, the preview shows the verdict on the text; a value exactly when it is
the player's rating; an error exactly when the text is a formula and the rating fails, which it then
does for this error alone; and neither when the text is no formula, and then no player is rated. -/
theorem preview_foretells_rating (h : config.algorithm = .custom)
    (hf : config.formula = some source) (player : Player) :
    (preview source player).Foretells source config player :=
  (preview_outcome h hf player).foretells

/-- `0 / 0` is a formula, and the preview shows the error that the sample player gets.  A blank is
no formula, and who has stored it is told that there is none. -/
theorem preview_foretells_division :
    (preview "0 / 0" .sample).error?.map Error.message = some "division by zero" ∧
    (preview "0 / 0" .sample).result? = none ∧
    (preview "0 / 0" .sample).verdict.toJson =
      .record [("valid", .bool true), ("normalizedFormula", .text "0 / 0")] ∧
    (preview " " .sample).verdict.toJson =
      .record [("valid", .bool false), ("error", .text "formula is empty")] ∧
    ∀ player, Rating.rate (Config.byFormula " ") player = .error .missingFormula := by
  have divided : compile .standard "0 / 0" =
      .ok ⟨"0 / 0", "0 / 0", .binary .div (.number (.zero false)) (.number (.zero false))⟩ := by
    cbv
  have blank : compile .standard " " = .error (.grammar .empty) := by cbv
  have value : (⟨"0 / 0", "0 / 0", .binary .div (.number (.zero false)) (.number (.zero false))⟩ :
      Formula).evaluate .sample = .error (.eval .divisionByZero) := by decide +kernel
  have rated : Rating.rate (Config.byFormula "0 / 0") .sample =
      .error (.formula (.eval .divisionByZero)) := by
    rw [Config.rate_compiled rfl (formula?_of_allBlank_eq_false rfl (allBlank_of_compile divided))
      divided, value]
    rfl
  have shown := @preview_foretells_rating "0 / 0" (Config.byFormula "0 / 0") rfl rfl .sample
  have refused := @preview_foretells_rating " " (Config.byFormula " ") rfl rfl .sample
  have failed := (shown.error?_eq_some_iff "division by zero").2 ⟨⟨_, divided⟩, _, rated, rfl⟩
  refine ⟨failed, ?_, shown.accepted _ divided, refused.refused _ blank,
    refused.fails _ blank⟩
  rcases shown.exclusive with hnone | hnone
  · exact hnone
  · rw [hnone] at failed
    cases failed

end Formula
end GuildRating
