/-
# Calculations on the command line

`calculate` reads a configuration and a player from two files, checks the configuration and rates
the player.  Whatever goes wrong first is the one error that it logs (`FirstFailure`), and without
a failure it prints the rating.  The check makes no difference to whether there is a rating: what it
refuses has none anyway (`check_of_rate`).  So a calculation succeeds exactly when both files can
be read and the player has a rating (`Calculates`).

It never comes to that when a setting of the working directory holds the character NUL and so cannot
come into force: then the run ends with code 101 before the command line is looked at
(`calculation_succeeds_iff_rated`).
-/

import GuildRating.Proofs.Command.Arguments
import GuildRating.Proofs.Command.Settings
import GuildRating.Proofs.Config.Checked

namespace GuildRating
namespace Command

open Rating (rate)

/-! ## The stages -/

section Stages

variable {α : Type} {files : Files} {read? : Json → Option α} {path : String} {value : α}
  {failure : Failure}

/-- The file can be read and holds a value of some kind. -/
def Holds (files : Files) (read? : Json → Option α) (path : String) (value : α) : Prop :=
  ∃ text json, files.read path = some text ∧ Json.ofText? text = some json ∧
    read? json = some value

/-- The file cannot be read, or does not hold a value of some kind. -/
inductive Unreadable (files : Files) (read? : Json → Option α) (path : String) : Failure → Prop
  | inaccessible : files.read path = none → Unreadable files read? path (.inaccessible path)
  | invalidJson {text : String} : files.read path = some text →
      (∀ json, Json.ofText? text = some json → read? json = none) →
      Unreadable files read? path (.invalidJson path)

/-- Reading a file gives the value that it holds. -/
theorem readFile_eq_ok_iff :
    readFile files read? path = .ok value ↔ Holds files read? path value := by
  unfold readFile Holds
  cases files.read path with
  | none => simp
  | some text =>
    dsimp only
    cases hjson : Json.ofText? text with
    | none => simp [hjson]
    | some json =>
      rw [Option.bind_some]
      cases hvalue : read? json <;> simp [hjson, hvalue]

/-- Reading a file fails for the reason that makes it unreadable. -/
theorem readFile_eq_error_iff :
    readFile files read? path = .error failure ↔ Unreadable files read? path failure := by
  unfold readFile
  constructor
  · intro h
    split at h
    · next hfile =>
      cases h
      exact .inaccessible hfile
    · next text hfile =>
      split at h
      · cases h
      · next hjson =>
        cases h
        refine .invalidJson hfile fun json hparsed => ?_
        rwa [hparsed, Option.bind_some] at hjson
  · rintro (hfile | ⟨hfile, hnone⟩)
    · rw [hfile]
    · rw [hfile]
      dsimp only
      have : (Json.ofText? _).bind read? = none := Option.bind_eq_none_iff.2 hnone
      rw [this]

end Stages

/-- The failure of the first stage that fails: the file of the configuration, the file of the
player, the check, the rating. -/
inductive FirstFailure (files : Files) (config inputs : String) : Failure → Prop
  | config {failure : Failure} : Unreadable files Config.ofJson? config failure →
      FirstFailure files config inputs failure
  | inputs {c : Config} {failure : Failure} : Holds files Config.ofJson? config c →
      Unreadable files Player.ofJson? inputs failure → FirstFailure files config inputs failure
  | check {c : Config} {player : Player} {e : Config.Error} :
      Holds files Config.ofJson? config c → Holds files Player.ofJson? inputs player →
      c.check = .error e → FirstFailure files config inputs (.config e)
  | rating {c : Config} {player : Player} {e : Rating.Error} :
      Holds files Config.ofJson? config c → Holds files Player.ofJson? inputs player →
      c.check = .ok () → rate c player = .error e → FirstFailure files config inputs (.rating e)

section Calculation

variable {files : Files} {config inputs : String} {c : Config} {player : Player} {rating : Double}
  {failure : Failure}

/-- What the check refuses has no rating. -/
theorem check_of_rate (h : rate c player = .ok rating) : c.check = .ok () := by
  cases hcheck : c.check with
  | ok _ => rfl
  | error e =>
    rw [((Config.check_foretells_rating c).2 e hcheck).1 player] at h
    cases h

/-- The rating of a player as it is printed. -/
def ratingRecord (c : Config) (rating : Double) : Json :=
  .record [("algorithm", .text c.algorithm.name), ("rating", .double rating)]

/-- A calculation that prints a rating. -/
def ratedEffect (c : Config) (rating : Double) : Effect :=
  .print true (ratingRecord c rating)
    [⟨.info, "Calculated " ++ c.algorithm.name ++ " rating: " ++ rating.text⟩]

/-- Where both files can be read, the check and the rating are left. -/
theorem calculate_of_holds (hconfig : Holds files Config.ofJson? config c)
    (hinputs : Holds files Player.ofJson? inputs player) :
    calculate files config inputs = (do
      c.check.mapError Failure.config
      let rating ← (rate c player).mapError Failure.rating
      return ratedEffect c rating) := by
  rw [calculate, readFile_eq_ok_iff.2 hconfig, ok_bind, readFile_eq_ok_iff.2 hinputs, ok_bind]
  rfl

/-- **Where both files can be read and the player has a rating, it is calculated**: the check
refuses no configuration under which there is one. -/
theorem calculate_of_rate (hconfig : Holds files Config.ofJson? config c)
    (hinputs : Holds files Player.ofJson? inputs player) (h : rate c player = .ok rating) :
    calculate files config inputs = .ok (ratedEffect c rating) := by
  rw [calculate_of_holds hconfig hinputs, check_of_rate h, h]
  rfl

/-- **A calculation fails as its first failing stage does.** -/
theorem calculate_of_firstFailure (h : FirstFailure files config inputs failure) :
    calculate files config inputs = .error failure := by
  cases h with
  | config h =>
    rw [calculate, readFile_eq_error_iff.2 h]
    rfl
  | inputs hconfig h =>
    rw [calculate, readFile_eq_ok_iff.2 hconfig, ok_bind, readFile_eq_error_iff.2 h]
    rfl
  | check hconfig hinputs h =>
    rw [calculate_of_holds hconfig hinputs, h]
    rfl
  | rating hconfig hinputs hcheck h =>
    rw [calculate_of_holds hconfig hinputs, hcheck, h]
    rfl

/-- Some stage fails, or the files hold a configuration and a player with a rating. -/
theorem firstFailure_or_rated (files : Files) (config inputs : String) :
    (∃ failure, FirstFailure files config inputs failure) ∨
      ∃ c player rating, Holds files Config.ofJson? config c ∧
        Holds files Player.ofJson? inputs player ∧ rate c player = .ok rating := by
  cases hc : readFile files Config.ofJson? config with
  | error e => exact .inl ⟨e, .config (readFile_eq_error_iff.1 hc)⟩
  | ok c =>
    have hconfig := readFile_eq_ok_iff.1 hc
    cases hp : readFile files Player.ofJson? inputs with
    | error e => exact .inl ⟨e, .inputs hconfig (readFile_eq_error_iff.1 hp)⟩
    | ok player =>
      have hinputs := readFile_eq_ok_iff.1 hp
      cases hcheck : c.check with
      | error e => exact .inl ⟨_, .check hconfig hinputs hcheck⟩
      | ok _ =>
        cases hrate : rate c player with
        | error e => exact .inl ⟨_, .rating hconfig hinputs hcheck hrate⟩
        | ok rating => exact .inr ⟨c, player, rating, hconfig, hinputs, hrate⟩

/-- Only one failure can be the first. -/
theorem FirstFailure.unique {failure' : Failure} (h : FirstFailure files config inputs failure)
    (h' : FirstFailure files config inputs failure') : failure = failure' :=
  Except.error.inj ((calculate_of_firstFailure h).symm.trans (calculate_of_firstFailure h'))

/-- The run prints the rating, if the files hold a configuration and a player with one; otherwise it
prints nothing, ends with code 1 and logs the first failure alone. -/
structure Calculates (files : Files) (config inputs : String) (effect : Effect) : Prop where
  exit_eq_zero_iff : effect.exit = 0 ↔ ∃ c player rating, Holds files Config.ofJson? config c ∧
    Holds files Player.ofJson? inputs player ∧ rate c player = .ok rating
  rated : ∀ c player rating, Holds files Config.ofJson? config c →
    Holds files Player.ofJson? inputs player → rate c player = .ok rating →
    effect.exit = 0 ∧ effect.output = some (ratingRecord c rating) ∧ effect.written = none ∧
      ∀ line ∈ effect.log, line.level ≠ .error
  failed : effect.exit ≠ 0 → ∃ failure,
    (∀ other, FirstFailure files config inputs other ↔ other = failure) ∧
      effect = ⟨1, none, [⟨.error, failure.message⟩], none⟩

/-- The rating is logged below the level of errors, and an error is logged at every level. -/
theorem calculates_perform (files : Files) (stamp : Stamp) (config inputs : String)
    (level : Level) :
    Calculates files config inputs
      ((perform files stamp (.calculate config inputs)).withLevel level) := by
  rcases firstFailure_or_rated files config inputs with ⟨failure, h⟩ | ⟨c, player, rating, hrated⟩
  · have effect : (perform files stamp (.calculate config inputs)).withLevel level =
        ⟨1, none, [⟨.error, failure.message⟩], none⟩ := by
      rw [perform, calculate_of_firstFailure h]
      cases level <;> rfl
    rw [effect]
    have unrated : ∀ c player rating, Holds files Config.ofJson? config c →
        Holds files Player.ofJson? inputs player → rate c player ≠ .ok rating := by
      intro c player rating hconfig hinputs hrate
      have := (calculate_of_firstFailure h).symm.trans (calculate_of_rate hconfig hinputs hrate)
      cases this
    have only : ∀ other, FirstFailure files config inputs other ↔ other = failure :=
      fun _ => ⟨fun other => other.unique h, fun same => same ▸ h⟩
    refine ⟨⟨nofun, ?_⟩, ?_, fun _ => ⟨failure, only, rfl⟩⟩
    · rintro ⟨c, player, rating, hconfig, hinputs, hrate⟩
      exact absurd hrate (unrated c player rating hconfig hinputs)
    · intro c player rating hconfig hinputs hrate
      exact absurd hrate (unrated c player rating hconfig hinputs)
  · have effect : ∀ c player rating, Holds files Config.ofJson? config c →
        Holds files Player.ofJson? inputs player → rate c player = .ok rating →
        (perform files stamp (.calculate config inputs)).withLevel level =
          (ratedEffect c rating).withLevel level := by
      intro c player rating hconfig hinputs hrate
      rw [perform, calculate_of_rate hconfig hinputs hrate]
      rfl
    have succeeded :
        ((perform files stamp (.calculate config inputs)).withLevel level).exit = 0 := by
      rw [effect c player rating hrated.1 hrated.2.1 hrated.2.2]
      rfl
    refine ⟨⟨fun _ => ⟨c, player, rating, hrated⟩, fun _ => succeeded⟩, ?_,
      fun h => absurd succeeded h⟩
    intro c player rating hconfig hinputs hrate
    rw [effect c player rating hconfig hinputs hrate]
    refine ⟨rfl, rfl, rfl, fun line hline => ?_⟩
    obtain rfl := List.mem_singleton.1 (List.mem_filter.1 hline).1
    exact nofun

/-- A run without an environment calculates nothing, nor does it say why. -/
theorem not_calculates_aborted : ¬Calculates files config inputs .aborted := by
  intro h
  obtain ⟨failure, -, same⟩ := h.failed (by decide)
  have exit : (101 : Nat) = 1 := congrArg Effect.exit same
  exact absurd exit (by decide)

end Calculation

/-! ## The command line -/

section Line

variable {environment : Environment} {files : Files} {config inputs : String}
  {options : List (Flag × String)} {before behind chosen : Option Level}

/-- The option that chooses a log level, or none. -/
def levelOption (level : Option Level) : List (Flag × String) :=
  level.toList.map fun level => (.logLevel, level.name)

/-- Once its settings are in force, the environment leaves the log level open or chooses one that
there is. -/
def LevelKnown (files : Files) (environment : Environment) : Prop :=
  ∀ settings, environmentOf? files environment = some settings →
    ∃ level : Option Level, settings.lookup levelVariable = level.map Level.name

/-- The options of a calculation: the two files and perhaps a log level, in any order. -/
def CalculationOptions (config inputs : String) (level : Option Level)
    (options : List (Flag × String)) : Prop :=
  options.Perm ((.config, config) :: (.inputs, inputs) :: levelOption level)

/-- A level is found under its name. -/
theorem Level.ofName?_name (level : Level) : Level.ofName? level.name = some level := by
  cases level <;> decide

/-- The name of a level does not look like an option. -/
theorem Level.not_option (level : Level) : ¬LooksLikeOption level.name := by
  rintro ⟨c, rest, h⟩
  cases level <;> exact absurd (List.cons.inj h).1 (by decide)

/-- A level on the command line counts before one of the environment. -/
theorem levelOf?_of_lookup {given : Given} {level : Option Level}
    (h : given.value? .logLevel = level.map Level.name) :
    levelOf? (chosen.map Level.name) given = some (level.or chosen) := by
  simp only [levelOf?, h]
  cases level with
  | some level => simp [Level.ofName?_name]
  | none =>
    cases chosen with
    | some level => simp [Level.ofName?_name]
    | none => rfl

/-- The option that chooses a level gives its name. -/
theorem value?_levelOption (level : Option Level) :
    Given.value? ⟨levelOption level, []⟩ .logLevel = level.map Level.name := by
  cases level <;> rfl

theorem not_option_of_mem_levelOption {level : Option Level} :
    ∀ option ∈ levelOption level, ¬LooksLikeOption option.2 := by
  intro option h
  obtain ⟨level, -, rfl⟩ := List.mem_map.1 h
  exact level.not_option

theorem reverse_levelOption (level : Option Level) :
    (levelOption level).reverse = levelOption level := by
  cases level <;> rfl

/-- The option for the log level before the subcommand. -/
theorem take?_levelOption (level : Option Level) (rest : List String) :
    take? [.logLevel] true .none (spell (levelOption level) ++ "calculate" :: rest) =
      some (⟨levelOption level, []⟩, "calculate" :: rest) := by
  have subcommand : ¬LooksLikeOption "calculate" := by
    rintro ⟨c, rest, h⟩
    exact absurd (List.cons.inj h).1 (by decide)
  have flags : ∀ option ∈ levelOption level, option.1 ∈ [Flag.logLevel] := by
    cases level <;> simp [levelOption]
  have nodup : ((levelOption level).map (·.1)).Nodup := by
    cases level <;> simp [levelOption]
  rw [take?_spell _ _ _ flags not_option_of_mem_levelOption nodup fun _ _ => rfl,
    reverse_levelOption, take?_subcommand subcommand]
  simp [Given.none]

namespace CalculationOptions

/-- The options of a calculation are those of its usual order. -/
theorem mem_iff (h : CalculationOptions config inputs behind options) {option : Flag × String} :
    option ∈ options ↔
      option ∈ (.config, config) :: (.inputs, inputs) :: levelOption behind :=
  List.Perm.mem_iff h

/-- No option is given twice. -/
theorem nodup (h : CalculationOptions config inputs behind options) :
    (options.map (·.1)).Nodup := by
  rw [(List.Perm.map _ h).nodup_iff]
  cases behind <;> simp [levelOption]

/-- Taken as they come, each option has its value. -/
theorem value?_eq (h : CalculationOptions config inputs behind options) {flag : Flag}
    {value : String} (hmem : (flag, value) ∈ options) :
    Given.value? ⟨options.reverse, []⟩ flag = some value := by
  refine lookup_of_mem ?_ (List.mem_reverse.2 hmem)
  rw [List.map_reverse, List.nodup_reverse]
  exact h.nodup

/-- Whatever the order of the options, the level is the one that was chosen, if any. -/
theorem value?_logLevel (h : CalculationOptions config inputs behind options) :
    Given.value? ⟨options.reverse, []⟩ .logLevel = behind.map Level.name := by
  cases behind with
  | some level => exact h.value?_eq (h.mem_iff.2 (by simp [levelOption]))
  | none =>
    refine List.lookup_eq_none_iff.2 fun option hoption => ?_
    have := h.mem_iff.1 (List.mem_reverse.1 hoption)
    simp only [levelOption, Option.toList_none, List.map_nil, List.mem_cons, List.not_mem_nil,
      or_false] at this
    rcases this with rfl | rfl <;> rfl

/-- Whatever the order of the options, they ask for the calculation with the two files. -/
theorem request?_eq (h : CalculationOptions config inputs behind options) (hconfig : config ≠ "")
    (hinputs : inputs ≠ "") :
    request? "calculate" ⟨options.reverse, []⟩ = some (.calculate config inputs) := by
  have path : ∀ {text : String}, text ≠ "" → path? text = some text := fun ht =>
    if_neg (by simpa using ht)
  have first : (.config, config) ∈ options := h.mem_iff.2 (by simp)
  have second : (.inputs, inputs) ∈ options := h.mem_iff.2 (by simp)
  simp [request?, requiredPath?, h.value?_eq first, h.value?_eq second, path hconfig, path hinputs]

end CalculationOptions

/-- **The command line of a calculation is in order**, with its options in any order, and the log
level before the subcommand, behind it, in both places or left to the environment. -/
theorem read?_calculate (h : CalculationOptions config inputs behind options)
    (hconfig : config ≠ "" ∧ ¬LooksLikeOption config)
    (hinputs : inputs ≠ "" ∧ ¬LooksLikeOption inputs) :
    read? (chosen.map Level.name) (spell (levelOption before) ++ "calculate" :: spell options) =
      some ⟨.calculate config inputs, (behind.or (before.or chosen)).getD .info⟩ := by
  have values : ∀ option ∈ options, ¬LooksLikeOption option.2 := by
    intro option hoption
    rcases List.mem_cons.1 (h.mem_iff.1 hoption) with rfl | hoption
    · exact hconfig.2
    · rcases List.mem_cons.1 hoption with rfl | hoption
      · exact hinputs.2
      · exact not_option_of_mem_levelOption option hoption
  have flags : ∀ option ∈ options, option.1 ∈ [Flag.logLevel, .config, .inputs] := by
    intro option hoption
    have := h.mem_iff.1 hoption
    cases behind <;> simp [levelOption] at this <;> rcases this with rfl | rfl | rfl <;> simp
  have taken : take? [.logLevel, .config, .inputs] false .none (spell options) =
      some (⟨options.reverse, []⟩, []) := by
    have := take?_spell false .none [] flags values h.nodup fun _ _ => rfl
    rw [List.append_nil] at this
    rw [this, take?]
    simp [Given.none]
  rw [read?, take?_levelOption]
  simp only [Option.bind_eq_bind, Option.bind_some, flagsOf?, taken,
    h.request?_eq hconfig.1 hinputs.1, level?, levelOf?_of_lookup (value?_levelOption before),
    levelOf?_of_lookup h.value?_logLevel, h.value?_logLevel]
  cases behind <;> rfl

end Line

variable {files : Files} {environment : Environment} {args : List String}

/-- Settings that cannot come into force end the run before the command line is looked at. -/
theorem run_of_environmentOf?_eq_none (h : environmentOf? files environment = none)
    (stamp : Stamp) : run files environment stamp args = .aborted := by
  simp [run, invocation?, h]

/-- With its settings in force, a command line that is in order is carried out. -/
theorem run_of_invocation {settings : Environment} {invocation : Invocation}
    (h : environmentOf? files environment = some settings)
    (hread : read? (settings.lookup levelVariable) args = some invocation) (stamp : Stamp) :
    run files environment stamp args =
      (perform files stamp invocation.request).withLevel invocation.level := by
  simp [run, invocation?, h, hread]

/-- **A calculation succeeds exactly when the player has a rating.**  For two files with any
contents, and a log level that is known or left open: the rating is printed when the first file
holds a configuration, the second a player, and the player has a rating by it; in every other case
nothing is printed, the code is 1, and the one error logged is that of the first stage that fails.
The check is a stage that never stands between a player and a rating.

All this holds exactly if the settings of the working directory come into force, and they do unless
the character NUL is among them.  Otherwise the run ends with code 101 and without a word, whatever
the files hold. -/
theorem calculation_succeeds_iff_rated (files : Files) (environment : Environment) (stamp : Stamp)
    (config inputs : String) (before behind : Option Level) (options : List (Flag × String))
    (hconfig : config ≠ "" ∧ ¬LooksLikeOption config)
    (hinputs : inputs ≠ "" ∧ ¬LooksLikeOption inputs)
    (hoptions : CalculationOptions config inputs behind options)
    (hlevel : LevelKnown files environment) :
    let effect := run files environment stamp
      (spell (levelOption before) ++ "calculate" :: spell options)
    (Calculates files config inputs effect ↔ (environmentOf? files environment).isSome = true) ∧
    (environmentOf? files environment = none → effect = .aborted) ∧
    (ClearEnvironment environment →
      (∀ text, files.read ".env" = some text → Clear text.toList) →
      (environmentOf? files environment).isSome = true) ∧
    ∀ c player rating, rate c player = .ok rating → c.check = .ok () := by
  intro effect
  have stopped (h : environmentOf? files environment = none) : effect = .aborted :=
    run_of_environmentOf?_eq_none h stamp
  refine ⟨⟨fun h => ?_, fun h => ?_⟩, stopped, isSome_environmentOf?,
    fun _ _ _ h => check_of_rate h⟩
  · by_contra hnone
    rw [Option.not_isSome_iff_eq_none] at hnone
    rw [stopped hnone] at h
    exact not_calculates_aborted h
  · obtain ⟨settings, hsettings⟩ := Option.isSome_iff_exists.1 h
    obtain ⟨chosen, hchosen⟩ := hlevel settings hsettings
    have hread : read? (chosen.map Level.name)
        (spell (levelOption before) ++ "calculate" :: spell options) = some _ :=
      read?_calculate hoptions hconfig hinputs
    rw [← hchosen] at hread
    have performed : effect = _ := run_of_invocation hsettings hread stamp
    rw [performed]
    exact calculates_perform files stamp config inputs _

/-- A player with a peak in ones. -/
def peakPlayer : Player := ⟨⟨⟨0, .ofNat 1400⟩, ⟨0, 0⟩, ⟨0, 0⟩, ⟨0, 0⟩⟩, ⟨10, 0, 0, 0⟩⟩

/-- The player in a file, in another one that ratings go by the highest peak, and other files. -/
def peakFiles (others : List (String × String)) : Files where
  read path :=
    (("config", "\x7b\"algorithm\":\"PEAK_MMR\"\x7d") ::
      ("player", "\x7b\"ones\":\x7b\"peak\":1400\x7d,\"onesGames\":10\x7d") :: others).lookup path
  canWrite _ := false

/-- The player has a rating of 1400, which is printed whatever the order of the options; without the
player's file there is one error, and beside a setting of the character NUL nothing is said. -/
theorem calculation_succeeds_iff_rated_peak :
    let line := ["calculate", "--inputs", "player", "--config", "config"]
    let run others := run (peakFiles others) [] ⟨"", ""⟩
    LevelKnown (peakFiles []) [] ∧
    CalculationOptions "config" "player" none [(.inputs, "player"), (.config, "config")] ∧
    (run [] line).exit = 0 ∧ (run [] line).output = some (ratingRecord .byPeak (.ofNat 1400)) ∧
    run [] ["calculate", "--config", "config", "--inputs", "nobody"] =
      ⟨1, none, [⟨.error, "failed to access nobody"⟩], none⟩ ∧
    run [(".env", "A=\x00")] line = .aborted ∧
    ¬Calculates (peakFiles [(".env", "A=\x00")]) "config" "player"
      (run [(".env", "A=\x00")] line) := by
  intro line run
  have settings : environmentOf? (peakFiles []) [] = some [] := by decide +kernel
  have refused : environmentOf? (peakFiles [(".env", "A=\x00")]) [] = none := by decide +kernel
  have known : LevelKnown (peakFiles []) [] := by
    intro settings' h
    obtain rfl := Option.some.inj (settings.symm.trans h)
    exact ⟨none, rfl⟩
  have unsettled : LevelKnown (peakFiles [(".env", "A=\x00")]) [] := by
    intro settings' h
    rw [refused] at h
    cases h
  have plain : ∀ name ∈ ["config", "player", "nobody"], name ≠ "" ∧ ¬LooksLikeOption name := by
    intro name hname
    simp only [List.mem_cons, List.not_mem_nil, or_false] at hname
    refine ⟨by rcases hname with rfl | rfl | rfl <;> decide, ?_⟩
    rintro ⟨c, rest, h⟩
    rcases hname with rfl | rfl | rfl <;> exact absurd (List.cons.inj h).1 (by decide)
  have swapped :
      CalculationOptions "config" "player" none [(.inputs, "player"), (.config, "config")] :=
    List.Perm.swap _ _ _
  have config : Holds (peakFiles []) Config.ofJson? "config" .byPeak :=
    readFile_eq_ok_iff.1 (by decide +kernel)
  have player : Holds (peakFiles []) Player.ofJson? "player" peakPlayer :=
    readFile_eq_ok_iff.1 (by decide +kernel)
  have rated : rate .byPeak peakPlayer = .ok (.ofNat 1400) := by decide +kernel
  have calculated := (calculation_succeeds_iff_rated (peakFiles []) [] ⟨"", ""⟩ "config" "player"
    none none _ (plain _ (by simp)) (plain _ (by simp)) swapped known).1.2 (by rw [settings]; rfl)
  have missing := (calculation_succeeds_iff_rated (peakFiles []) [] ⟨"", ""⟩ "config" "nobody"
    none none _ (plain _ (by simp)) (plain _ (by simp)) (List.Perm.refl _) known).1.2
      (by rw [settings]; rfl)
  obtain ⟨uncalculated, aborted, -⟩ := calculation_succeeds_iff_rated
    (peakFiles [(".env", "A=\x00")]) [] ⟨"", ""⟩ "config" "player" none none _
    (plain _ (by simp)) (plain _ (by simp)) swapped unsettled
  obtain ⟨exit, output, -⟩ := calculated.rated _ _ _ config player rated
  have absent : (peakFiles []).read "nobody" = none := by decide
  refine ⟨known, swapped, exit, output, ?_, aborted refused, fun h => ?_⟩
  · obtain ⟨failure, only, effect⟩ := missing.failed fun h => by
      obtain ⟨-, other, -, -, ⟨text, -, hread, -⟩, -⟩ := missing.exit_eq_zero_iff.1 h
      rw [absent] at hread
      cases hread
    obtain rfl := (only _).1 (.inputs config (.inaccessible absent))
    exact effect
  · have := uncalculated.1 h
    rw [refused] at this
    cases this

end Command
end GuildRating
