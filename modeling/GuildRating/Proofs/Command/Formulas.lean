/-
# Formulas on the command line

`validate` prints the verdict on the formula behind it and `test-formula` the preview of it with
the sample player; the exit code says whether the formula was accepted and whether it has a value
(`Answers`).  Both do so for every text that is a plain argument, blanks and refused texts
included, and behind `--` for every text.

The language has a unary minus, so a formula may begin with `-`.  Such a formula is not judged: the
command line takes it for an option and ends with code 2 and without a word about the formula
(`run_option_formula`), although the same text is a formula for everything behind the command line.
Requests for help are not among the command lines that `read?` knows, and nothing is said of them.
-/

import GuildRating.Proofs.Command.Arguments

namespace GuildRating
namespace Command

/-- The run prints a value and nothing else, and its exit code says whether all is well. -/
structure Answers (effect : Effect) (value : Json) (good : Bool) : Prop where
  output : effect.output = some value
  exit : effect.exit = if good then 0 else 1
  log : effect.log = []
  written : effect.written = none

/-- The run gives the verdict on a text, and succeeds if the text is accepted. -/
def Judges (effect : Effect) (source : String) : Prop :=
  Answers effect (Formula.judge .standard source).toJson
    (Formula.judge .standard source).isAccepted

/-- The run gives the preview of a text with the sample player, and succeeds if there is a
value. -/
def Previews (effect : Effect) (source : String) : Prop :=
  Answers effect (Formula.preview source .sample).toJson
    (Formula.preview source .sample).result?.isSome

/-- The texts that ask for help, whatever they stand behind. -/
def AsksForHelp (text : String) : Prop :=
  text = "--help" ∨ ∃ rest, text.toList = '-' :: 'h' :: rest

/-- Printing a value answers with it, at every log level. -/
theorem answers_print (value : Json) (good : Bool) (level : Level) :
    Answers ((Effect.print good value []).withLevel level) value good :=
  ⟨rfl, rfl, rfl, rfl⟩

/-- A command line that is not in order gets no answer. -/
theorem not_answers_usage (value : Json) (good : Bool) : ¬Answers .usage value good :=
  fun h => absurd h.output (by simp [Effect.usage])

/-! ## The two subcommands -/

/-- The subcommands that take a formula, each with its options and what it asks for. -/
inductive TakesFormula : String → List Flag → (String → Request) → Prop where
  | validate : TakesFormula "validate" [.logLevel] .validate
  | testFormula : TakesFormula "test-formula" [.logLevel, .inputs] (.testFormula · none)

section Reading

variable {name : String} {flags : List Flag} {request : String → Request}

/-- The names of the subcommands do not look like options. -/
theorem TakesFormula.not_option (h : TakesFormula name flags request) : ¬LooksLikeOption name := by
  rintro ⟨c, rest, hlist⟩
  cases h <;> exact absurd (List.cons.inj hlist).1 (by decide)

/-- A subcommand allows its own options. -/
theorem TakesFormula.flagsOf? (h : TakesFormula name flags request) :
    flagsOf? name = some flags := by
  cases h <;> rfl

/-- One plain argument is the formula that a subcommand asks about. -/
theorem TakesFormula.request?_one (h : TakesFormula name flags request) (source : String) :
    request? name ⟨[], [source]⟩ = some (request source) := by
  cases h <;> rfl

/-- Without a plain argument a subcommand has nothing to ask. -/
theorem TakesFormula.request?_none (h : TakesFormula name flags request) {given : Given}
    (hplain : given.plain = []) : request? name given = none := by
  cases h <;> simp [request?, hplain]

/-- A formula that is a plain argument is what the subcommand asks about. -/
theorem TakesFormula.read?_plain (h : TakesFormula name flags request) {source : String}
    (hplain : ¬LooksLikeOption source) :
    read? none [name, source] = some ⟨request source, .info⟩ := by
  have htake : take? flags false .none [source] = some (⟨[], [source]⟩, []) :=
    take?_of_plain (by simpa using hplain)
  rw [read?_subcommand h.not_option h.flagsOf?, htake]
  simp only [Option.bind_some, h.request?_one]
  rfl

/-- Behind `--` every text is a plain argument. -/
theorem TakesFormula.read?_separator (h : TakesFormula name flags request) (source : String) :
    read? none [name, "--", source] = some ⟨request source, .info⟩ := by
  rw [read?_subcommand h.not_option h.flagsOf?, take?_separator]
  show ((request? name ⟨[], [source]⟩).bind _) = _
  rw [h.request?_one]
  rfl

/-- A formula in the form of an option leaves the subcommand without one. -/
theorem TakesFormula.read?_option (h : TakesFormula name flags request) {source : String}
    (hoption : LooksLikeOption source) : read? none [name, source] = none := by
  rw [read?_subcommand h.not_option h.flagsOf?]
  cases htake : take? flags false .none [source] with
  | none => rfl
  | some taken =>
    have hnone : request? name taken.1 = none :=
      h.request?_none (plain_of_take?_option hoption htake)
    simp [hnone]

end Reading

/-! ## Their runs -/

section Run

variable {files : Files} {environment : Environment} {name : String} {flags : List Flag}
  {request : String → Request} {source : String} {stamp : Stamp} {value : Json} {good : Bool}

/-- A formula in the form of an option ends the run over the command line. -/
theorem run_option_formula (hlevel : LevelUnset files environment)
    (h : TakesFormula name flags request) (hoption : LooksLikeOption source) :
    run files environment stamp [name, source] = .usage :=
  run_of_read?_eq_none hlevel (h.read?_option hoption) stamp

/-- A command line that is read as a request which is performed by printing a value prints it. -/
theorem answers_of_read? (hlevel : LevelUnset files environment) {args : List String}
    {asked : Request} (hread : read? none args = some ⟨asked, .info⟩)
    (hperform : perform files stamp asked = .print good value []) :
    Answers (run files environment stamp args) value good := by
  rw [run_of_read?_eq_some hlevel hread, hperform]
  exact answers_print _ _ _

/-- **A subcommand answers for a formula exactly if that does not look like an option.** -/
theorem TakesFormula.answers_iff (h : TakesFormula name flags request)
    (hlevel : LevelUnset files environment)
    (hperform : perform files stamp (request source) = .print good value []) :
    Answers (run files environment stamp [name, source]) value good ↔
      ¬LooksLikeOption source := by
  constructor
  · intro answered hoption
    rw [run_option_formula hlevel h hoption] at answered
    exact not_answers_usage _ _ answered
  · intro hplain
    exact answers_of_read? hlevel (h.read?_plain hplain) hperform

/-- Behind `--` a subcommand answers for every formula. -/
theorem TakesFormula.answers_separator (h : TakesFormula name flags request)
    (hlevel : LevelUnset files environment)
    (hperform : perform files stamp (request source) = .print good value []) :
    Answers (run files environment stamp [name, "--", source]) value good :=
  answers_of_read? hlevel (h.read?_separator source) hperform

end Run

/-- **A formula on the command line is judged unless it looks like an option.**  With the log level
left open, `validate` and `test-formula` answer for a text exactly when it is not `-` followed by
something; a text that is, help aside, ends the run with code 2 and no output, whatever it would be
as a formula.  Behind `--` there is no exception. -/
theorem formulas_are_judged_unless_options (files : Files) (environment : Environment)
    (stamp : Stamp) (source : String) (hlevel : LevelUnset files environment) :
    (Judges (run files environment stamp ["validate", source]) source ↔
      ¬LooksLikeOption source) ∧
    (Previews (run files environment stamp ["test-formula", source]) source ↔
      ¬LooksLikeOption source) ∧
    (LooksLikeOption source → ¬AsksForHelp source →
      ∀ name ∈ ["validate", "test-formula"],
        run files environment stamp [name, source] = .usage) ∧
    Judges (run files environment stamp ["validate", "--", source]) source ∧
    Previews (run files environment stamp ["test-formula", "--", source]) source := by
  refine ⟨TakesFormula.validate.answers_iff hlevel rfl,
    TakesFormula.testFormula.answers_iff hlevel rfl, fun hoption _ name hname => ?_,
    TakesFormula.validate.answers_separator hlevel rfl,
    TakesFormula.testFormula.answers_separator hlevel rfl⟩
  rw [List.mem_cons, List.mem_singleton] at hname
  rcases hname with rfl | rfl
  · exact run_option_formula hlevel .validate hoption
  · exact run_option_formula hlevel .testFormula hoption

/-- `-ones` is a formula, and has a value for the sample player.  On the command line neither
subcommand says so, in a directory without files and an environment without settings, and both do
behind `--`. -/
theorem formulas_are_judged_unless_options_minusOnes :
    let run := run (Directory.files []) [] ⟨"", ""⟩
    LevelUnset (Directory.files []) [] ∧
      Formula.judge .standard "-ones" = .accepted "-ones" ∧
      (Formula.preview "-ones" .sample).result?.isSome = true ∧
      run ["validate", "-ones"] = .usage ∧ ¬Judges (run ["validate", "-ones"]) "-ones" ∧
      run ["test-formula", "-ones"] = .usage ∧
      ¬Previews (run ["test-formula", "-ones"]) "-ones" ∧
      Judges (run ["validate", "--", "-ones"]) "-ones" ∧
      Previews (run ["test-formula", "--", "-ones"]) "-ones" := by
  intro run
  have hlevel : LevelUnset (Directory.files []) [] := levelUnset_nil
  have hoption : LooksLikeOption "-ones" := ⟨'o', ['n', 'e', 's'], by decide⟩
  have hhelp : ¬AsksForHelp "-ones" := by
    rintro (h | ⟨rest, h⟩)
    · exact absurd h (by decide)
    · exact absurd (List.cons.inj (List.cons.inj h).2).1 (by decide)
  have haccepted : Formula.judge .standard "-ones" = .accepted "-ones" ∧
      (Formula.preview "-ones" .sample).result?.isSome = true := by decide +kernel
  obtain ⟨hjudges, hpreviews, husage, hjudged, hpreviewed⟩ :=
    formulas_are_judged_unless_options (Directory.files []) [] ⟨"", ""⟩ "-ones" hlevel
  refine ⟨hlevel, haccepted.1, haccepted.2, husage hoption hhelp _ (by simp),
    fun h => hjudges.1 h hoption, husage hoption hhelp _ (by simp),
    fun h => hpreviews.1 h hoption, hjudged, hpreviewed⟩

end Command
end GuildRating
