/-
# What an evaluation fails for

Where an evaluation stops, there is a node whose operands have values while the operation on them
has none, and the error tells of this node (`Cause`).  That a divisor is zero, that a square root
or a power of a negative value is asked for, and that a sum, a difference, a product, a quotient or
a power is too large, are the only causes (`caused_eval`): all other operations keep finite values
finite, and the leaves of a compiled formula have finite values, as numbers do in a text
(`isFinite_of_read`) and what is known of a player does (`isFinite_ofPlayer`).
-/

import GuildRating.Proofs.Double.Closed
import GuildRating.Proofs.Evaluation.Unneeded
import GuildRating.Proofs.Grammar.Sound
import GuildRating.Proofs.Refusal
import GuildRating.Proofs.Rendering.Lexemes
import GuildRating.Proofs.Scan.Split

namespace GuildRating
namespace Formula

variable {v : Vocabulary} {bindings : Bindings} {value x y : Double} {values : List Double}

/-- The operators whose result may be too large. -/
def BinaryOp.growing : List BinaryOp := [.add, .sub, .mul, .div]

/-- What an evaluation can stop at: a node whose operands have values while the operation on them
has none, and the error that tells of it. -/
inductive Cause (v : Vocabulary) (bindings : Bindings) : Expr → EvalError → Prop
  | zeroDivisor {op : BinaryOp} {left right : Expr} {x y : Double} : op = .div ∨ op = .rem →
      left.eval v bindings = .ok x → right.eval v bindings = .ok y → y.isZero = true →
      Cause v bindings (.binary op left right) .divisionByZero
  | tooLarge {op : BinaryOp} {left right : Expr} {x y : Double} : op ∈ BinaryOp.growing →
      left.eval v bindings = .ok x → right.eval v bindings = .ok y →
      op.apply x y = .error (.nonFinite op.text) →
      Cause v bindings (.binary op left right) (.nonFinite op.text)
  | negativeRoot {name : String} {arg : Expr} {x : Double} : v.findFunction? name = some .sqrt →
      arg.eval v bindings = .ok x → x.isFinite = true → x.less 0 = true →
      Cause v bindings (.call name [arg]) (.invalidOperation "sqrt" [x])
  | negativePower {name : String} {base exponent : Expr} {x y : Double} :
      v.findFunction? name = some .pow → base.eval v bindings = .ok x →
      exponent.eval v bindings = .ok y → x.isFinite = true → y.isFinite = true →
      x.less 0 = true → ¬ y.IsInteger →
      Cause v bindings (.call name [base, exponent]) (.invalidOperation "pow" [x, y])
  | largePower {name : String} {base exponent : Expr} {x y : Double} :
      v.findFunction? name = some .pow → base.eval v bindings = .ok x →
      exponent.eval v bindings = .ok y → (x.pow y).isInfinite = true →
      Cause v bindings (.call name [base, exponent]) (.nonFinite "pow")

/-! ### Which operations fail on finite values -/

/-- A test for finite values stops over a number because it is infinite. -/
theorem stopsWith_checked (h : value.isNaN = false) (op : String) (operands : List Double) :
    StopsWith (· = .nonFinite op) (checked op value operands) := by
  rw [checked, h]
  split
  · next hnan => cases hnan
  · split
    · exact .error rfl
    · exact .ok _

/-- On finite operands, division and remainder fail for a zero, and four operators for size. -/
theorem BinaryOp.stopsWith_apply (op : BinaryOp) (hx : x.isFinite = true)
    (hy : y.isFinite = true) :
    StopsWith (fun e => (op = .div ∨ op = .rem) ∧ y.isZero = true ∧ e = .divisionByZero ∨
      op ∈ growing ∧ e = .nonFinite op.text) (op.apply x y) := by
  have grown {value : Double} (op : BinaryOp) (hop : op ∈ growing) (hvalue : value.isNaN = false) :
      StopsWith (fun e => (op = .div ∨ op = .rem) ∧ y.isZero = true ∧ e = .divisionByZero ∨
        op ∈ growing ∧ e = .nonFinite op.text) (checked op.text value [x, y]) :=
    (stopsWith_checked hvalue _ _).imp fun _ he => .inr ⟨hop, he⟩
  have compared {P : EvalError → Prop} (op : BinaryOp) (holds : Bool) :
      StopsWith P (checked op.text (truth holds) [x, y]) := by
    rw [checked_of_isFinite (isFinite_truth holds)]
    exact .ok _
  cases op with
  | add => exact grown .add (by decide) (Double.isNaN_add hx hy)
  | sub => exact grown .sub (by decide) (Double.isNaN_sub hx hy)
  | mul => exact grown .mul (by decide) (Double.isNaN_mul hx hy)
  | div =>
    rw [apply]
    split
    · next hzero => exact .error (.inl ⟨.inl rfl, hzero, rfl⟩)
    · next hzero =>
      exact grown .div (by decide) (Double.isNaN_div hx hy (eq_false_of_ne_true hzero))
  | rem =>
    rw [apply]
    split
    · next hzero => exact .error (.inl ⟨.inr rfl, hzero, rfl⟩)
    · next hzero =>
      rw [checked_of_isFinite (Double.isFinite_mod hx hy (eq_false_of_ne_true hzero))]
      exact .ok _
  | less | lessEqual | greater | greaterEqual | equal | notEqual | and | or => exact compared _ _

/-- A fold over finite values is finite if its step keeps values finite. -/
theorem isFinite_foldl {f : Double → Double → Double} (hx : x.isFinite = true)
    (hvalues : ∀ z ∈ values, z.isFinite = true)
    (hf : ∀ {a b : Double}, a.isFinite = true → b.isFinite = true → (f a b).isFinite = true) :
    (values.foldl f x).isFinite = true :=
  List.foldlRecOn (motive := fun z => z.isFinite = true) values f hx
    fun _ ha b hb => hf ha (hvalues b hb)

/-- On finite operands, only two functions have values that are not finite. -/
theorem Function.isFinite_value? {f : Function} (hvalues : ∀ z ∈ values, z.isFinite = true)
    (h : f.value? values = some value) : value.isFinite = true ∨
      (f = .sqrt ∧ ∃ x, values = [x] ∧ x.less 0 = true ∧ value.isNaN = true) ∨
      (f = .pow ∧ ∃ x y, values = [x, y] ∧ value = x.pow y) := by
  unfold value? at h
  split at h
  · cases h
    exact .inl (Double.isFinite_abs (hvalues _ List.mem_cons_self))
  · next x =>
    cases h
    have hx := hvalues x List.mem_cons_self
    cases hless : x.less 0 with
    | false => exact .inl (Double.isFinite_sqrt hx hless)
    | true => exact .inr (.inl ⟨rfl, x, rfl, hless, (Double.isNaN_sqrt_iff hx).2 hless⟩)
  · cases h
    exact .inl (Double.isFinite_floor (hvalues _ List.mem_cons_self))
  · cases h
    exact .inl (Double.isFinite_ceil (hvalues _ List.mem_cons_self))
  · cases h
    exact .inl (Double.isFinite_round (hvalues _ List.mem_cons_self))
  · next x y =>
    cases h
    exact .inr (.inr ⟨rfl, x, y, rfl, rfl⟩)
  · cases h
    rw [List.forall_mem_cons] at hvalues
    rw [List.foldl_cons, Double.larger_infinity hvalues.1]
    exact .inl (isFinite_foldl hvalues.1 hvalues.2 Double.isFinite_larger)
  · cases h
    rw [List.forall_mem_cons] at hvalues
    rw [List.foldl_cons, Double.smaller_infinity hvalues.1]
    exact .inl (isFinite_foldl hvalues.1 hvalues.2 Double.isFinite_smaller)
  · cases h

/-! ### From the operations to the tree -/

/-- The names of the node are known, and if it is a number, that is finite. -/
def Vocabulary.Admits (v : Vocabulary) (node : Expr) : Prop :=
  v.Resolves node ∧ ∀ value, node = .number value → value.isFinite = true

/-- One of the nodes is a cause of the error. -/
def Caused (v : Vocabulary) (bindings : Bindings) (nodes : List Expr) (e : EvalError) : Prop :=
  ∃ node ∈ nodes, Cause v bindings node e

namespace Caused

variable {nodes nodes' : List Expr} {e : EvalError}

/-- A cause among the nodes stays one when a node is put before them. -/
theorem cons (node : Expr) : Caused v bindings nodes e → Caused v bindings (node :: nodes) e :=
  fun ⟨node', h, hcause⟩ => ⟨node', List.mem_cons_of_mem node h, hcause⟩

theorem append_left : Caused v bindings nodes e → Caused v bindings (nodes ++ nodes') e :=
  fun ⟨node, h, hcause⟩ => ⟨node, List.mem_append_left nodes' h, hcause⟩

theorem append_right : Caused v bindings nodes' e → Caused v bindings (nodes ++ nodes') e :=
  fun ⟨node, h, hcause⟩ => ⟨node, List.mem_append_right nodes h, hcause⟩

end Caused

namespace Expr

/-- The first value of arguments is that of the first argument. -/
theorem evalAll_eq_cons {args : List Expr} (h : evalAll v bindings args = .ok (x :: values)) :
    ∃ arg rest, args = arg :: rest ∧ arg.eval v bindings = .ok x ∧
      evalAll v bindings rest = .ok values := by
  cases args with
  | nil => cases h
  | cons arg rest =>
    rw [evalAll] at h
    obtain ⟨x', hx, h⟩ := bind_eq_ok.1 h
    obtain ⟨values', hvalues, h⟩ := bind_eq_ok.1 h
    cases h
    exact ⟨arg, rest, rfl, hx, hvalues⟩

theorem evalAll_eq_nil {args : List Expr} (h : evalAll v bindings args = .ok []) : args = [] :=
  List.eq_nil_of_length_eq_zero (length_of_evalAll h).symm

/-- The values of arguments are finite. -/
theorem isFinite_of_evalAll {args : List Expr} (h : evalAll v bindings args = .ok values) :
    ∀ z ∈ values, z.isFinite = true := by
  rw [← outcome_evalAllLogged] at h
  exact (finitely_evalAllLogged v bindings args).value values h

/-- A call of a function with finite values fails for one of the causes. -/
theorem cause_of_checked {name : String} {args : List Expr} {f : Function} {e : EvalError}
    (hname : v.findFunction? name = some f) (hvalues : evalAll v bindings args = .ok values)
    (hvalue : f.value? values = some value) (h : checked f.name value values = .error e) :
    Cause v bindings (.call name args) e := by
  have hfinite := isFinite_of_evalAll hvalues
  rcases Function.isFinite_value? hfinite hvalue with hok | ⟨rfl, x, rfl, hneg, hnan⟩ |
    ⟨rfl, x, y, rfl, rfl⟩
  · rw [checked_of_isFinite hok] at h
    cases h
  · obtain ⟨arg, rest, rfl, harg, hrest⟩ := evalAll_eq_cons hvalues
    obtain rfl := evalAll_eq_nil hrest
    rw [checked, if_pos hnan] at h
    cases h
    exact .negativeRoot hname harg (hfinite x List.mem_cons_self) hneg
  · obtain ⟨base, rest, rfl, hbase, hrest⟩ := evalAll_eq_cons hvalues
    obtain ⟨exponent, rest, rfl, hexponent, hrest⟩ := evalAll_eq_cons hrest
    obtain rfl := evalAll_eq_nil hrest
    obtain ⟨hx, hy⟩ := List.forall_mem_cons.1 hfinite
    have hy := List.forall_mem_singleton.1 hy
    unfold checked at h
    split at h
    · next hnan =>
      cases h
      obtain ⟨hneg, hwhole⟩ := (Double.isNaN_pow_iff hx hy).1 hnan
      exact .negativePower hname hbase hexponent hx hy hneg hwhole
    · split at h
      · next hlarge =>
        cases h
        exact .largePower hname hbase hexponent hlarge
      · cases h

mutual

/-- **An evaluation fails for a cause**, if its variables and numbers have finite values. -/
theorem caused_eval (hbindings : ∀ name, (bindings name).isFinite = true) : (tree : Expr) →
    (∀ node ∈ tree.nodes, v.Admits node) →
    StopsWith (Caused v bindings tree.nodes) (tree.eval v bindings)
  | number value, h => by
    rw [eval, checked_of_isFinite ((h _ List.mem_cons_self).2 value rfl)]
    exact .ok _
  | var name, h => by
    obtain ⟨z, hz⟩ := (h (.var name) List.mem_cons_self).1
    rw [eval, Vocabulary.findVariable?_eq_some_iff.2 hz]
    dsimp only
    rw [checked_of_isFinite (hbindings z)]
    exact .ok _
  | unary op operand, h => by
    rw [nodes, List.forall_mem_cons] at h
    rw [eval, nodes]
    have inner := caused_eval hbindings operand h.2
    exact (inner.imp fun _ hcaused => hcaused.cons _).bind fun _ _ => .ok _
  | binary op left right, h => by
    rw [nodes, List.forall_mem_cons, List.forall_mem_append] at h
    rw [eval, nodes]
    have first := caused_eval hbindings left h.2.1
    refine (first.imp fun _ hcaused => hcaused.append_left.cons _).bind fun x hx => ?_
    cases op.settled? x with
    | some value => exact .ok _
    | none =>
      have second := caused_eval hbindings right h.2.2
      refine (second.imp fun _ hcaused => hcaused.append_right.cons _).bind fun y hy => ?_
      intro e he
      refine ⟨_, List.mem_cons_self, ?_⟩
      rcases op.stopsWith_apply (isFinite_of_eval hx) (isFinite_of_eval hy) e he with
        ⟨hop, hzero, rfl⟩ | ⟨hop, rfl⟩
      · exact .zeroDivisor hop hx hy hzero
      · exact .tooLarge hop hx hy he
  | conditional condition whenTrue whenFalse, h => by
    rw [nodes, List.forall_mem_cons, List.forall_mem_append, List.forall_mem_append] at h
    rw [eval, nodes]
    have tested := caused_eval hbindings condition h.2.1
    refine (tested.imp fun _ hcaused => hcaused.append_left.cons _).bind fun x _ => ?_
    split
    · have selected := caused_eval hbindings whenFalse h.2.2.2
      exact selected.imp fun _ hcaused => hcaused.append_right.append_right.cons _
    · have selected := caused_eval hbindings whenTrue h.2.2.1
      exact selected.imp fun _ hcaused => hcaused.append_left.append_right.cons _
  | call name args, h => by
    rw [nodes, List.forall_mem_cons] at h
    obtain ⟨f, hf, hcalled, haccepts⟩ := h.1.1
    have hname := Vocabulary.findFunction?_eq_some_iff.2 ⟨hf, hcalled⟩
    rw [eval, nodes, hname]
    dsimp only
    rw [if_pos haccepts]
    have inner := caused_evalAll hbindings args h.2
    refine (inner.imp fun _ hcaused => hcaused.cons _).bind fun values hvalues => ?_
    obtain ⟨-, value, hvalue⟩ := value?_of_accepts haccepts hvalues
    rw [hvalue]
    exact fun e he => ⟨_, List.mem_cons_self, cause_of_checked hname hvalues hvalue he⟩

/-- Where the evaluation of arguments stops, one of their nodes is a cause. -/
theorem caused_evalAll (hbindings : ∀ name, (bindings name).isFinite = true) :
    (args : List Expr) → (∀ node ∈ allNodes args, v.Admits node) →
    StopsWith (Caused v bindings (allNodes args)) (evalAll v bindings args)
  | [], _ => .ok []
  | arg :: rest, h => by
    rw [allNodes, List.forall_mem_append] at h
    rw [evalAll, allNodes]
    have first := caused_eval hbindings arg h.1
    refine (first.imp fun _ hcaused => hcaused.append_left).bind fun x _ => ?_
    have later := caused_evalAll hbindings rest h.2
    exact (later.imp fun _ hcaused => hcaused.append_right).bind fun values _ => .ok _

end

/-! ### What a cause is good for -/

/-- **A cause is one**: the node fails with the error. -/
theorem eval_of_cause {node : Expr} {e : EvalError} (h : Cause v bindings node e) :
    node.eval v bindings = .error e := by
  cases h with
  | zeroDivisor hop hleft hright hzero =>
    rcases hop with rfl | rfl
    · rw [eval_binary rfl hleft hright, BinaryOp.apply, if_pos hzero]
    · rw [eval_binary rfl hleft hright, BinaryOp.apply, if_pos hzero]
  | @tooLarge op _ _ x _ hop hleft hright hlarge =>
    have hsettled : op.settled? x = none := by
      revert hop
      cases op <;> simp [BinaryOp.growing, BinaryOp.settled?]
    rw [eval_binary hsettled hleft hright, hlarge]
  | negativeRoot hname harg hx hneg =>
    rw [eval_call hname (evalAll_cons harg rfl) rfl, checked,
      if_pos ((Double.isNaN_sqrt_iff hx).2 hneg)]
    rfl
  | negativePower hname hbase hexponent hx hy hneg hwhole =>
    rw [eval_call hname (evalAll_cons hbase (evalAll_cons hexponent rfl)) rfl, checked,
      if_pos ((Double.isNaN_pow_iff hx hy).2 ⟨hneg, hwhole⟩)]
    rfl
  | @largePower _ _ _ x y hname hbase hexponent hlarge =>
    have hnan : (x.pow y).isNaN = false := by
      cases hpow : x.pow y with
      | nan => rw [hpow] at hlarge; cases hlarge
      | infinity negative => rfl
      | finite negative units fits => rfl
    rw [eval_call hname (evalAll_cons hbase (evalAll_cons hexponent rfl)) rfl, checked, hnan,
      if_neg Bool.false_ne_true, if_pos hlarge]
    rfl

/-! ### Finite leaves -/

variable {arg : Expr} {args : List Expr} {lexeme : Lexeme}

/-- A lexeme of a later argument is one of its call. -/
theorem mem_laterLexemes (harg : arg ∈ args) (h : lexeme ∈ arg.lexemes) :
    lexeme ∈ laterLexemes args := by
  induction args with
  | nil => exact absurd harg List.not_mem_nil
  | cons first rest ih =>
    rw [laterLexemes, List.mem_cons, List.mem_append]
    rcases List.mem_cons.1 harg with rfl | harg
    · exact .inr (.inl h)
    · exact .inr (.inr (ih harg))

/-- A lexeme of an argument is one of its call. -/
theorem mem_allLexemes (harg : arg ∈ args) (h : lexeme ∈ arg.lexemes) :
    lexeme ∈ allLexemes args := by
  cases args with
  | nil => exact absurd harg List.not_mem_nil
  | cons first rest =>
    rw [allLexemes, List.mem_append]
    rcases List.mem_cons.1 harg with rfl | harg
    · exact .inl h
    · exact .inr (mem_laterLexemes harg h)

/-- A lexeme of a subtree is one of the tree. -/
theorem mem_lexemes_fill {node : Expr} (h : lexeme ∈ node.lexemes) : (place : Place) →
    lexeme ∈ (place.fill node).lexemes
  | .here => h
  | .inOperand _ inner | .inLeft _ inner _ | .inRight _ _ inner | .inCondition inner _ _
  | .inWhenTrue _ inner _ | .inWhenFalse _ _ inner => by
    have := mem_lexemes_fill h inner
    simp [Place.fill, lexemes, this]
  | .inArgument _ before inner after => by
    have harg : inner.fill node ∈ before ++ inner.fill node :: after :=
      List.mem_append_right before List.mem_cons_self
    have := mem_allLexemes harg (mem_lexemes_fill h inner)
    simp [Place.fill, lexemes, this]

/-- The lexemes of a node are among those of the tree. -/
theorem mem_lexemes_of_mem_nodes {node tree : Expr} (hnode : node ∈ tree.nodes)
    (h : lexeme ∈ node.lexemes) : lexeme ∈ tree.lexemes := by
  obtain ⟨place, rfl⟩ := mem_nodes_iff_exists_fill.1 hnode
  exact mem_lexemes_fill h place

end Expr

variable {limits : Limits} {source : String}

/-- The numbers of a tree that was read are finite. -/
theorem isFinite_of_read {tree : Expr} (h : read limits source = .ok tree)
    (hvalue : .number value ∈ tree.nodes) : value.isFinite = true := by
  obtain ⟨-, tokens, hscan, hparse⟩ := read_eq_ok h
  obtain ⟨-, -, row, rfl, hrow, -⟩ := Grammar.derives_of_parse hparse
  obtain ⟨pieces, hsplits, htokens⟩ := splits_of_scanFrom 0 source.toList hscan
  have finite : ∀ l ∈ tree.lexemes, ∀ value, l = .number value → value.isFinite = true := by
    have symbols (s : Symbol) : ∀ value, Lexeme.symbol s = .number value →
        value.isFinite = true := by
      rintro value h
      cases h
    refine hrow.forall_lexemes symbols fun m hm => ?_
    have hm : m.toToken ∈ pieces.map Piece.toToken := htokens ▸ List.mem_map_of_mem hm
    obtain ⟨p, hp, htoken⟩ := List.mem_map.1 hm
    have := hsplits.isFinite p hp
    rwa [htoken] at this
  exact finite _ (Expr.mem_lexemes_of_mem_nodes hvalue (List.mem_singleton_self _)) value rfl

/-- The number of games in all playlists fits into 64 bits. -/
theorem totalGames_le (player : Player) : player.totalGames ≤ Nat.pow 2 64 := by
  have := player.games.ones.toNat_lt
  have := player.games.twos.toNat_lt
  have := player.games.threes.toNat_lt
  have := player.games.fours.toNat_lt
  simp only [Player.totalGames, PerPlaylist.toList, Playlist.all, List.map_cons, List.map_nil,
    List.foldl_cons, List.foldl_nil, PerPlaylist.get, Nat.pow_eq]
  omega

/-- What the variables stand for is finite if the ratings are. -/
theorem isFinite_ofPlayer {player : Player}
    (h : ∀ p, (player.standings.get p).current.isFinite = true) :
    ∀ name, (Bindings.ofPlayer player name).isFinite = true
  | .rating p => h p
  | .games p => by
    rw [Bindings.ofPlayer]
    have := (player.games.get p).toNat_lt
    exact Double.isFinite_ofNat (Nat.le_trans (Nat.le_of_lt this) (by decide))
  | .totalGames => by
    rw [Bindings.ofPlayer]
    exact Double.isFinite_ofNat (totalGames_le player)

/-- **An evaluation fails for a cause.**  When a compiled formula has no value for a player whose
ratings are finite, then for a node of its tree: a division or a remainder by what comes to zero,
the square root of what comes to a negative value, the power of a negative value to one that is not
whole, or a sum, a difference, a product, a quotient or a power that is too large; and whatever is
such a cause does fail with the error.  So the error is never that of a name, and it names none but
these operations. -/
theorem evaluation_fails_for_a_cause (limits : Limits) (source : String) (formula : Formula)
    (player : Player) (hcompile : compile limits source = .ok formula)
    (hfinite : ∀ p, (player.standings.get p).current.isFinite = true) :
    (∀ e, formula.evaluate player = .error e →
      ∃ e', e = .eval e' ∧ ∃ node ∈ formula.tree.nodes, Cause .full (.ofPlayer player) node e') ∧
    (∀ node e', Cause .full (.ofPlayer player) node e' →
      node.eval .full (.ofPlayer player) = .error e') ∧
    (∀ e', formula.evaluate player = .error (.eval e') →
      (∀ name, e' ≠ .unresolved name) ∧
      (∀ op operands, e' = .invalidOperation op operands → op = "sqrt" ∨ op = "pow") ∧
      ∀ op, e' = .nonFinite op → op ∈ ["+", "-", "*", "/", "pow"]) := by
  obtain ⟨-, -, hread⟩ := compile_eq_ok hcompile
  obtain ⟨-, -, hresolved⟩ := Expr.check_eq_ok_iff.1 (check_of_compile hcompile)
  have admitted : ∀ node ∈ formula.tree.nodes, Vocabulary.full.Admits node := by
    refine fun node hnode => ⟨hresolved node hnode, ?_⟩
    rintro value rfl
    exact isFinite_of_read hread hnode
  have caused := Expr.caused_eval (isFinite_ofPlayer hfinite) formula.tree admitted
  have stops : StopsWith (fun e => ∃ e', e = .eval e' ∧
      Caused .full (.ofPlayer player) formula.tree.nodes e') (formula.evaluate player) :=
    caused.mapError fun e he => ⟨e, rfl, he⟩
  refine ⟨stops, fun _ _ => Expr.eval_of_cause, fun e' he => ?_⟩
  obtain ⟨e', he, node, -, hcause⟩ := stops _ he
  cases he
  cases hcause with
  | zeroDivisor => exact ⟨nofun, nofun, nofun⟩
  | negativeRoot => exact ⟨nofun, fun _ _ h => .inl (by cases h; rfl), nofun⟩
  | negativePower => exact ⟨nofun, fun _ _ h => .inr (by cases h; rfl), nofun⟩
  | tooLarge hop =>
    refine ⟨nofun, nofun, fun _ h => ?_⟩
    cases h
    revert hop
    cases ‹BinaryOp› <;> decide
  | largePower =>
    refine ⟨nofun, nofun, fun _ h => ?_⟩
    cases h
    decide

/-- `sqrt(-ones)`, compiled. -/
def negatedRoot : Formula :=
  ⟨"sqrt(-ones)", "sqrt(-ones)", .call "sqrt" [.unary .neg (.var "ones")]⟩

/-- The sample player has a rating, so its negation has no root, and the tree has the cause. -/
theorem evaluation_fails_for_a_cause_negatedRoot :
    compile .standard "sqrt(-ones)" = .ok negatedRoot ∧
    (∀ p, (Player.sample.standings.get p).current.isFinite = true) ∧
    negatedRoot.evaluate .sample = .error (.eval (.invalidOperation "sqrt" [-.ofNat 1050])) ∧
    ∃ node ∈ negatedRoot.tree.nodes,
      Cause .full (.ofPlayer .sample) node (.invalidOperation "sqrt" [-.ofNat 1050]) := by
  have compiled : compile .standard "sqrt(-ones)" = .ok negatedRoot := by
    have read : read .standard "sqrt(-ones)" = .ok negatedRoot.tree := by cbv
    have known : negatedRoot.tree.check .full .standard = .ok () := by decide +kernel
    have normal : Text.collapse "sqrt(-ones)" = "sqrt(-ones)" := by cbv
    rw [compile, read, ok_bind, known, mapError_ok, ok_bind, normal]
    rfl
  have finite (p : Playlist) : (Player.sample.standings.get p).current.isFinite = true := by
    cases p <;> decide +kernel
  have stopped : negatedRoot.evaluate .sample =
      .error (.eval (.invalidOperation "sqrt" [-.ofNat 1050])) := by decide +kernel
  obtain ⟨causes, -, -⟩ := evaluation_fails_for_a_cause .standard "sqrt(-ones)" negatedRoot .sample
    compiled finite
  obtain ⟨e', he, node, hnode, hcause⟩ := causes _ stopped
  cases he
  exact ⟨compiled, finite, stopped, node, hnode, hcause⟩

end Formula
end GuildRating
