/-
# A formula sees what it names

An evaluation looks a variable up only where the tree names it, so bindings that agree on the names
in a tree give it the same value or the same error, whatever else they hold (`eval_of_agree`).
A player's bindings come from the current ratings and the counts of games alone, each from its
own playlist.  So a rating by a formula depends on those of them that the formula names, and on no
peak rating at all (`rating_sees_what_is_named`).
-/

import GuildRating.Proofs.Preview

namespace GuildRating
namespace Formula

/-- The bindings agree on the variables among the nodes. -/
def Agree (bindings bindings' : Bindings) (nodes : List Expr) : Prop :=
  ∀ x : Variable, .var x.name ∈ nodes → bindings x = bindings' x

namespace Agree

variable {bindings bindings' : Bindings} {node : Expr} {nodes nodes' : List Expr}

/-- Bindings that agree on nodes agree on fewer of them. -/
theorem tail (h : Agree bindings bindings' (node :: nodes)) : Agree bindings bindings' nodes :=
  fun x hx => h x (List.mem_cons_of_mem node hx)

theorem left (h : Agree bindings bindings' (nodes ++ nodes')) : Agree bindings bindings' nodes :=
  fun x hx => h x (List.mem_append_left nodes' hx)

theorem right (h : Agree bindings bindings' (nodes ++ nodes')) :
    Agree bindings bindings' nodes' :=
  fun x hx => h x (List.mem_append_right nodes hx)

end Agree

namespace Expr

variable {v : Vocabulary} {bindings bindings' : Bindings}

mutual

/-- **Bindings that agree on what a tree names give it the same outcome.** -/
theorem eval_of_agree : (tree : Expr) → Agree bindings bindings' tree.nodes →
    tree.eval v bindings = tree.eval v bindings'
  | number _, _ => rfl
  | var name, h => by
    rw [eval, eval]
    cases hname : v.findVariable? name with
    | none => rfl
    | some x =>
      obtain ⟨-, rfl⟩ := Vocabulary.findVariable?_eq_some_iff.1 hname
      dsimp only
      rw [h x List.mem_cons_self]
  | unary _ operand, h => by
    rw [eval, eval, eval_of_agree operand h.tail]
  | binary _ left right, h => by
    rw [nodes] at h
    rw [eval, eval, eval_of_agree left h.tail.left, eval_of_agree right h.tail.right]
  | conditional condition whenTrue whenFalse, h => by
    rw [nodes] at h
    rw [eval, eval, eval_of_agree condition h.tail.left,
      eval_of_agree whenTrue h.tail.right.left, eval_of_agree whenFalse h.tail.right.right]
  | call _ args, h => by
    rw [nodes] at h
    rw [eval, eval, evalAll_of_agree args h.tail]

/-- Bindings that agree on the names in arguments give them the same values. -/
theorem evalAll_of_agree : (args : List Expr) → Agree bindings bindings' (allNodes args) →
    evalAll v bindings args = evalAll v bindings' args
  | [], _ => rfl
  | arg :: rest, h => by
    rw [allNodes] at h
    rw [evalAll, evalAll, eval_of_agree arg h.left, evalAll_of_agree rest h.right]

end

end Expr
end Formula

open Formula (compile)

variable {config : Config}

/-- The player with another standing in one playlist. -/
def Player.withStanding (player : Player) (p : Playlist) (standing : Standing) : Player :=
  { player with standings := player.standings.set p standing }

/-- The formula of the configuration compiles, and the variable stands in it. -/
def Config.Names (config : Config) (x : Formula.Variable) : Prop :=
  ∃ source formula, config.formula? = some source ∧ compile .standard source = .ok formula ∧
    .var x.name ∈ formula.tree.nodes

/-- The players are alike in all that the formula of the configuration names. -/
structure Config.SeesAlike (config : Config) (player player' : Player) : Prop where
  current : ∀ p, config.Names (.rating p) →
    (player.standings.get p).current = (player'.standings.get p).current
  games : ∀ p, config.Names (.games p) → player.games.get p = player'.games.get p
  totalGames : config.Names .totalGames → player.totalGames = player'.totalGames

namespace Rating

/-- Players who are alike in what the formula names have the same bindings for it. -/
theorem agree_ofPlayer {source : String} {formula : Formula} {player player' : Player}
    (h : config.SeesAlike player player') (hf : config.formula? = some source)
    (hcompile : compile .standard source = .ok formula) :
    Formula.Agree (.ofPlayer player) (.ofPlayer player') formula.tree.nodes := by
  intro x hx
  have named : config.Names x := ⟨source, formula, hf, hcompile, hx⟩
  cases x with
  | rating p => exact h.current p named
  | games p => rw [Formula.Bindings.ofPlayer, Formula.Bindings.ofPlayer, h.games p named]
  | totalGames => rw [Formula.Bindings.ofPlayer, Formula.Bindings.ofPlayer, h.totalGames named]

/-- **A rating by a formula depends on what the formula names only.** -/
theorem rate_of_seesAlike (hc : config.algorithm = .custom) {player player' : Player}
    (h : config.SeesAlike player player') : rate config player = rate config player' := by
  cases hf : config.formula? with
  | none => rw [rate_missing hc hf, rate_missing hc hf]
  | some source =>
    cases hcompile : compile .standard source with
    | error e => rw [Config.rate_refused hc hf hcompile, Config.rate_refused hc hf hcompile]
    | ok formula =>
      rw [Config.rate_compiled hc hf hcompile, Config.rate_compiled hc hf hcompile,
        Formula.evaluate, Formula.evaluate,
        Formula.Expr.eval_of_agree _ (agree_ofPlayer h hf hcompile)]

/-- Another standing in one playlist, with the same current rating if that is named, is not seen. -/
theorem seesAlike_withStanding {player : Player} {p : Playlist} {standing : Standing}
    (h : config.Names (.rating p) → standing.current = (player.standings.get p).current) :
    config.SeesAlike (player.withStanding p standing) player where
  current q hq := by
    rw [Player.withStanding]
    by_cases same : q = p
    · subst same
      rw [PerPlaylist.get_set_self]
      exact h hq
    · rw [PerPlaylist.get_set_of_ne same]
  games _ _ := rfl
  totalGames _ := rfl

/-- **A formula sees what it names.**  Every tree, be it checked or not, comes to the same value or
the same error with any two bindings that agree on the variables in it.  Under every configuration
with a formula, two players have the same rating, or fail alike, if they are alike in the current
ratings, the counts of games and the total that the formula names.  So the standing in a playlist
can be replaced by any other without effect, whatever its peak, and whatever its current rating too
if that is not named. -/
theorem rating_sees_what_is_named :
    (∀ (v : Formula.Vocabulary) (bindings bindings' : Formula.Bindings) (tree : Formula.Expr),
      (∀ x : Formula.Variable, .var x.name ∈ tree.nodes → bindings x = bindings' x) →
      tree.eval v bindings = tree.eval v bindings') ∧
    (∀ config player player', config.algorithm = .custom → config.SeesAlike player player' →
      rate config player = rate config player') ∧
    (∀ (config : Config) (player : Player) (p : Playlist) (standing : Standing),
      config.algorithm = .custom →
      (config.Names (.rating p) → standing.current = (player.standings.get p).current) →
      rate config (player.withStanding p standing) = rate config player) := by
  refine ⟨fun v bindings bindings' tree h => Formula.Expr.eval_of_agree tree h, ?_, ?_⟩
  · intro config player player' hc h
    exact rate_of_seesAlike hc h
  · intro config player p standing hc h
    exact rate_of_seesAlike hc (seesAlike_withStanding h)

/-- The sum of one rating and one count of games. -/
def onesAndTwosGames : Formula.Expr := .binary .add (.var "ones") (.var "twosGames")

/-- The bindings of the sample player for `ones` and `twosGames`, and no number for the rest. -/
def sampleOrNaN (x : Formula.Variable) : Double :=
  if x = .rating .ones ∨ x = .games .twos then Formula.Bindings.ofPlayer .sample x else .nan

/-- `ones + twosGames` comes to 1260 for the sample player, and so it does when the rating in twos
is not a number and the peak in ones is infinite. -/
theorem rating_sees_what_is_named_sum :
    rate (Config.byFormula "ones + twosGames") .sample = .ok (.ofNat 1260) ∧
    rate (Config.byFormula "ones + twosGames") (Player.sample.withStanding .twos ⟨.nan, .nan⟩) =
      .ok (.ofNat 1260) ∧
    rate (Config.byFormula "ones + twosGames")
        (Player.sample.withStanding .ones ⟨.ofNat 1050, .infinity false⟩) =
      .ok (.ofNat 1260) ∧
    onesAndTwosGames.eval .full (.ofPlayer .sample) = onesAndTwosGames.eval .full sampleOrNaN := by
  have compiled : compile .standard "ones + twosGames" =
      .ok ⟨"ones + twosGames", "ones + twosGames", onesAndTwosGames⟩ := by cbv
  have set : (Config.byFormula "ones + twosGames").formula? = some "ones + twosGames" :=
    Formula.formula?_of_allBlank_eq_false rfl (Formula.allBlank_of_compile compiled)
  have rated : rate (Config.byFormula "ones + twosGames") .sample = .ok (.ofNat 1260) := by
    rw [Config.rate_compiled rfl set compiled]
    decide +kernel
  have nodes (x : Formula.Variable) (hx : .var x.name ∈ onesAndTwosGames.nodes) :
      x = .rating .ones ∨ x = .games .twos := by
    simp only [onesAndTwosGames, Formula.Expr.nodes, List.mem_cons, List.mem_append,
      List.not_mem_nil, or_false, reduceCtorEq, false_or, Formula.Expr.var.injEq] at hx
    exact hx.imp (fun h => Formula.Variable.eq_of_name_eq h)
      fun h => Formula.Variable.eq_of_name_eq h
  have unnamed : ¬ (Config.byFormula "ones + twosGames").Names (.rating .twos) := by
    rintro ⟨source, formula, hsource, hformula, hx⟩
    obtain rfl := Option.some.inj (set.symm.trans hsource)
    obtain rfl := Except.ok.inj (compiled.symm.trans hformula)
    exact absurd (nodes _ hx) (by decide)
  obtain ⟨agreed, -, replaced⟩ := rating_sees_what_is_named
  refine ⟨rated, ?_, ?_, ?_⟩
  · rw [replaced _ .sample .twos ⟨.nan, .nan⟩ rfl fun h => absurd h unnamed, rated]
  · rw [replaced _ .sample .ones ⟨.ofNat 1050, .infinity false⟩ rfl fun _ => rfl, rated]
  · refine agreed .full _ _ onesAndTwosGames fun x hx => ?_
    rw [sampleOrNaN, if_pos (nodes x hx)]

end Rating
end GuildRating
