/-
# What a command line gives

An argument that begins with `-` and goes on has the form of an option (`ofText_ne_plain`); all
others are plain (`ofText_of_not_option`).  Plain arguments are collected in their order
(`take?_of_plain`), behind `--` everything is (`take?_separator`), and a single argument that has
the form of an option gives no plain argument at all (`plain_of_take?_option`).  A line that begins
with a subcommand is read by that subcommand alone (`read?_subcommand`), and what was read is
carried out (`run_of_read?_eq_some`), while a line that is not in order ends the run at once
(`run_of_read?_eq_none`).
-/

import GuildRating.Command.Run
import GuildRating.Proofs.Check.Names

namespace GuildRating
namespace Command

/-- A text begins with `-` and does not end there. -/
def LooksLikeOption (text : String) : Prop :=
  ∃ c rest, text.toList = '-' :: c :: rest

/-! ## The form of one argument -/

/-- What looks like an option is no plain argument. -/
theorem ofText_ne_plain {text : String} (h : LooksLikeOption text) (plain : String) :
    Argument.ofText text ≠ .plain plain := by
  obtain ⟨c, rest, hlist⟩ := h
  unfold Argument.ofText
  rw [hlist]
  split
  · simp
  · dsimp only
    split <;> simp
  · split <;> simp
  · rename_i hshort
    exact absurd rfl (hshort c rest)

/-- What does not look like an option is the plain argument it is. -/
theorem ofText_of_not_option {text : String} (h : ¬LooksLikeOption text) :
    Argument.ofText text = .plain text := by
  unfold Argument.ofText
  split
  · rename_i hlist
    exact absurd ⟨_, _, hlist⟩ h
  · rename_i hlist
    exact absurd ⟨_, _, hlist⟩ h
  · rename_i hlist
    exact absurd ⟨_, _, hlist⟩ h
  · rfl

/-! ## Arguments in a row -/

variable {flags : List Flag} {given : Given}

/-- **Plain arguments are collected in their order.** -/
theorem take?_of_plain {texts : List String} (h : ∀ text ∈ texts, ¬LooksLikeOption text) :
    take? flags false given texts = some ({ given with plain := given.plain ++ texts }, []) := by
  induction texts generalizing given with
  | nil => simp [take?]
  | cons text rest ih =>
    have hrest : take? flags false { given with plain := given.plain ++ [text] } rest =
        some ({ given with plain := (given.plain ++ [text]) ++ rest }, []) :=
      ih fun t ht => h t (List.mem_cons_of_mem _ ht)
    unfold take?
    rw [ofText_of_not_option (h text List.mem_cons_self)]
    simpa using hrest

/-- **Behind `--` everything is a plain argument.** -/
theorem take?_separator (texts : List String) :
    take? flags false given ("--" :: texts) =
      some ({ given with plain := given.plain ++ texts }, []) := by
  have hform : Argument.ofText "--" = .separator := by decide
  unfold take?
  rw [hform]
  rfl

/-- The word at which the search for a subcommand stops. -/
theorem take?_subcommand {name : String} (h : ¬LooksLikeOption name) (rest : List String) :
    take? flags true given (name :: rest) = some (given, name :: rest) := by
  unfold take?
  rw [ofText_of_not_option h]
  rfl

/-- An option that is added leaves the plain arguments. -/
theorem plain_of_add? {flag : Flag} {value : String} {more : Given}
    (h : given.add? flag value = some more) : more.plain = given.plain := by
  unfold Given.add? at h
  split at h
  · cases h
  · cases h
    rfl

/-- A single argument that has the form of an option is no plain one, whichever option it is and
whether or not its value is attached. -/
theorem plain_of_take?_option {text : String} (h : LooksLikeOption text)
    {taken : Given × List String} (htake : take? flags false given [text] = some taken) :
    taken.1.plain = given.plain := by
  unfold take? at htake
  split at htake
  · simp only [Bool.false_eq_true, if_false, Option.some.injEq] at htake
    simp [← htake]
  · rename_i plain hplain
    exact absurd hplain (ofText_ne_plain h plain)
  · -- an option takes its value from the same argument or from the next, and there is no next
    split at htake
    · cases htake
    · rename_i flag value _
      split at htake
      · rename_i more hadd
        simp only [take?, Option.some.injEq] at htake
        subst htake
        exact plain_of_add? hadd
      · cases htake
    · cases htake

/-! ## Options in a row -/

/-- Options in their long form, each with its value as the next argument. -/
def spell (options : List (Flag × String)) : List String :=
  options.flatMap fun option => ["--" ++ option.1.long, option.2]

/-- `--` and the long name of a flag is the long form of an option. -/
theorem ofText_long (flag : Flag) :
    Argument.ofText ("--" ++ flag.long) = .long flag.long none := by
  cases flag <;> decide

/-- No two flags share a long name. -/
theorem Flag.eq_of_long_eq {flag flag' : Flag} (h : flag.long = flag'.long) : flag = flag' := by
  cases flag <;> cases flag' <;> first | rfl | exact absurd h (by decide)

/-- The long form of an option stands for its flag, where that is allowed. -/
theorem flag?_long {flag : Flag} (h : flag ∈ flags) :
    flag? flags (.long flag.long none) = some (flag, none) := by
  have found : flags.find? (fun f => f.long = flag.long) = some flag :=
    Formula.find?_eq_some_of_unique h (decide_eq_true rfl) fun f hf =>
      Flag.eq_of_long_eq (of_decide_eq_true hf)
  rw [flag?, found]
  rfl

/-- **Options that are not given yet are taken one after the other**, whatever follows them. -/
theorem take?_spell (stop : Bool) (given : Given) {options : List (Flag × String)}
    (rest : List String)
    (hflags : ∀ option ∈ options, option.1 ∈ flags)
    (hvalues : ∀ option ∈ options, ¬LooksLikeOption option.2)
    (hnodup : (options.map (·.1)).Nodup)
    (hnew : ∀ option ∈ options, given.value? option.1 = none) :
    take? flags stop given (spell options ++ rest) =
      take? flags stop { given with options := options.reverse ++ given.options } rest := by
  induction options generalizing given with
  | nil => rfl
  | cons option options ih =>
    obtain ⟨flag, value⟩ := option
    obtain ⟨hflag, hflags⟩ := List.forall_mem_cons.1 hflags
    obtain ⟨hvalue, hvalues⟩ := List.forall_mem_cons.1 hvalues
    obtain ⟨hfirst, hnew⟩ := List.forall_mem_cons.1 hnew
    obtain ⟨hother, hnodup⟩ := List.nodup_cons.1 hnodup
    have hadd : given.add? flag value =
        some { given with options := (flag, value) :: given.options } := by
      rw [Given.add?, hfirst]
      rfl
    -- the others are still new beside the first one
    have hstill : ∀ option ∈ options,
        Given.value? { given with options := (flag, value) :: given.options } option.1 = none := by
      intro option hoption
      have hne : (option.1 == flag) = false :=
        beq_eq_false_iff_ne.2 fun same => hother (List.mem_map.2 ⟨option, hoption, same⟩)
      rw [Given.value?, List.lookup_cons, hne]
      exact hnew option hoption
    have step : spell ((flag, value) :: options) ++ rest =
        ("--" ++ flag.long) :: value :: (spell options ++ rest) := rfl
    rw [step, take?, ofText_long]
    dsimp only
    rw [flag?_long hflag]
    dsimp only
    rw [ofText_of_not_option hvalue, hadd]
    dsimp only
    rw [ih _ hflags hvalues hnodup hstill, List.reverse_cons, List.append_assoc]
    rfl

/-- Of options that are all different each has its value. -/
theorem lookup_of_mem {options : List (Flag × String)} {flag : Flag} {value : String}
    (hnodup : (options.map (·.1)).Nodup) (h : (flag, value) ∈ options) :
    options.lookup flag = some value := by
  induction options with
  | nil => cases h
  | cons option options ih =>
    obtain ⟨hother, hnodup⟩ := List.nodup_cons.1 hnodup
    rcases List.mem_cons.1 h with rfl | h
    · exact List.lookup_cons_self
    · have hne : (flag == option.1) = false :=
        beq_eq_false_iff_ne.2 fun same => hother (List.mem_map.2 ⟨_, h, same⟩)
      rw [List.lookup_cons, hne]
      exact ih hnodup h

/-! ## A whole line, and its run -/

/-- A line that begins with a subcommand, where neither the environment nor an option in front
chooses the level. -/
theorem read?_subcommand {name : String} (hname : ¬LooksLikeOption name)
    (hflags : flagsOf? name = some flags) (rest : List String) :
    read? none (name :: rest) = (take? flags false .none rest).bind fun taken =>
      (request? name taken.1).bind fun request =>
        (level? none .none taken.1).map fun level => ⟨request, level⟩ := by
  unfold read?
  rw [take?_subcommand hname]
  simp only [Option.bind_eq_bind, Option.bind_some, hflags, Option.pure_def, Option.map_eq_bind,
    Function.comp_def]

/-- Settings come into force, and none of them chooses the log level. -/
def LevelUnset (files : Files) (environment : Environment) : Prop :=
  ∃ settings, environmentOf? files environment = some settings ∧
    settings.lookup levelVariable = none

/-- In a directory without files there are no settings either. -/
theorem levelUnset_nil : LevelUnset (Directory.files []) [] := by
  have hread : (Directory.files []).read ".env" = none := by
    simp [Directory.files, Directory.nullDevice, Directory.file?]
  exact ⟨[], by rw [environmentOf?, hread], rfl⟩

section Run

variable {files : Files} {environment : Environment} {args : List String}

/-- Where nothing chooses the log level, the command line alone is read. -/
theorem invocation?_of_levelUnset (h : LevelUnset files environment) :
    invocation? files environment args = read? none args := by
  obtain ⟨settings, hsettings, hlevel⟩ := h
  simp [invocation?, hsettings, hlevel]

/-- A command line that is in order is carried out. -/
theorem run_of_read?_eq_some (h : LevelUnset files environment) {invocation : Invocation}
    (hread : read? none args = some invocation) (stamp : Stamp) :
    run files environment stamp args =
      (perform files stamp invocation.request).withLevel invocation.level := by
  simp only [run, invocation?_of_levelUnset h, hread]

/-- A command line that is not in order ends the run. -/
theorem run_of_read?_eq_none (h : LevelUnset files environment)
    (hread : read? none args = none) (stamp : Stamp) :
    run files environment stamp args = .usage := by
  obtain ⟨settings, hsettings, -⟩ := id h
  simp [run, invocation?_of_levelUnset h, hread, hsettings]

end Run

end Command
end GuildRating
