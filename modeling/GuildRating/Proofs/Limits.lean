/-
# Limits only refuse

A text meets its limits in four places: its length before it is scanned, the nesting while it is
parsed, and the size and the depth of the tree when that is checked.  In each of them a limit that
is exceeded ends the compilation with an error that names it (`Limits.Exceeded`), and a limit that
is kept leaves no trace.  Hence under higher limits a text compiles to the same formula, or is
refused with the same error at the same place, unless it was refused for a limit
(`limits_only_refuse`).
-/

import GuildRating.Proofs.Grammar.Room
import GuildRating.Proofs.Spelling

namespace GuildRating
namespace Formula

/-- No limit is higher than the other's. -/
structure Limits.Le (limits limits' : Limits) : Prop where
  length : limits.maxLength ≤ limits'.maxLength
  depth : limits.maxDepth ≤ limits'.maxDepth
  nodes : limits.maxNodes ≤ limits'.maxNodes

instance : LE Limits := ⟨Limits.Le⟩

/-- The error refuses a text or its tree for one of the limits, and names the limit. -/
inductive Limits.Exceeded (limits : Limits) : Error → Prop where
  | length {n : Nat} : limits.maxLength < n →
      Exceeded limits (.scan (.tooLong n limits.maxLength))
  | nesting : Exceeded limits (.grammar (.tooDeep limits.maxDepth))
  | depth {n : Nat} : limits.maxDepth < n → Exceeded limits (.check (.tooDeep n limits.maxDepth))
  | nodes {n : Nat} : limits.maxNodes < n →
      Exceeded limits (.check (.tooManyNodes n limits.maxNodes))

variable {limits limits' : Limits}

/-- Scanning with a higher limit comes to the same, unless the lower one is exceeded. -/
theorem scan_looser (h : limits ≤ limits') (source : String) :
    EqUnless limits.Exceeded ((scan limits.maxLength source).mapError Error.scan)
      ((scan limits'.maxLength source).mapError Error.scan) := by
  rcases Nat.lt_or_ge limits.maxLength source.length with hlong | hshort
  · rw [scan_of_lt hlong]
    exact .stopped (.length hlong)
  · rw [scan_of_le hshort, scan_of_le (Nat.le_trans hshort h.length)]
    exact .rfl

/-- So does reading with higher limits. -/
theorem read_looser (h : limits ≤ limits') (source : String) :
    EqUnless limits.Exceeded (read limits source) (read limits' source) := by
  rw [read, read]
  refine (scan_looser h source).bind fun tokens _ => ?_
  refine (Expr.parse_roomier h.depth tokens).mapError fun e he => ?_
  obtain rfl : e = .tooDeep limits.maxDepth := he
  exact .nesting

/-- The names in a tree are checked under either limits, once the tree keeps within the tighter
ones. -/
theorem check_looser (h : limits ≤ limits') (v : Vocabulary) (tree : Expr) :
    EqUnless limits.Exceeded ((tree.check v limits).mapError Error.check)
      ((tree.check v limits').mapError Error.check) := by
  rw [Expr.check, Expr.check]
  rcases Nat.lt_or_ge limits.maxNodes tree.size with hlarge | hsmall
  · rw [if_pos hlarge]
    exact .stopped (.nodes hlarge)
  rcases Nat.lt_or_ge limits.maxDepth tree.depth with hdeep | hflat
  · rw [if_neg (Nat.not_lt.2 hsmall), if_pos hdeep]
    exact .stopped (.depth hdeep)
  · rw [if_neg (Nat.not_lt.2 hsmall), if_neg (Nat.not_lt.2 hflat),
      if_neg (Nat.not_lt.2 (Nat.le_trans hsmall h.nodes)),
      if_neg (Nat.not_lt.2 (Nat.le_trans hflat h.depth))]
    exact .rfl

/-- **So does compiling with higher limits.** -/
theorem compile_looser (h : limits ≤ limits') (source : String) :
    EqUnless limits.Exceeded (compile limits source) (compile limits' source) := by
  rw [compile, compile]
  refine (read_looser h source).bind fun tree _ => ?_
  exact (check_looser h .full tree).bind fun _ _ => .rfl

/-- **Limits only refuse.**  A text either is refused for one of its limits or has the same outcome
under all higher limits, formula or error; so what compiles under some limits compiles to the same
formula under higher ones.  And a row of tokens either is too deep for a limit or is parsed alike
under every higher one. -/
theorem limits_only_refuse :
    (∀ limits limits' : Limits, limits ≤ limits' → ∀ source,
      (compile limits source = compile limits' source ∨
        ∃ e, limits.Exceeded e ∧ compile limits source = .error e) ∧
      ∀ formula, compile limits source = .ok formula → compile limits' source = .ok formula) ∧
    (∀ limit limit' : Nat, limit ≤ limit' → ∀ tokens,
      Expr.parse limit tokens = Expr.parse limit' tokens ∨
        Expr.parse limit tokens = .error (.tooDeep limit)) := by
  constructor
  · intro limits limits' h source
    have hcompile := compile_looser h source
    exact ⟨hcompile, fun formula => hcompile.eq_ok⟩
  · intro limit limit' h tokens
    rcases Expr.parse_roomier h tokens with hparse | ⟨e, rfl, hparse⟩
    · exact .inl hparse
    · exact .inr hparse

/-- Just enough for a sum of two variables. -/
def sumLimits : Limits := ⟨11, 2, 3⟩

/-- The sum compiles under its own limits, hence under the standard ones; a text that ends early is
refused under both for the same reason; of two negations one is too deep; and `!(-x)`, which is
nested four deep, is parsed at the limit three as at the limit four or not at all. -/
theorem limits_only_refuse_sum :
    sumLimits ≤ Limits.standard ∧
    compile .standard "ones + twos" =
      .ok ⟨"ones + twos", "ones + twos", .binary .add (.var "ones") (.var "twos")⟩ ∧
    compile .standard "ones +" = .error (.grammar (.unexpected 6 .operand none)) ∧
    (∃ e, sumLimits.Exceeded e ∧ compile sumLimits "--ones" = .error e) ∧
    (Expr.parse 3 Grammar.groupedTokens = Expr.parse 4 Grammar.groupedTokens ∨
      Expr.parse 3 Grammar.groupedTokens = .error (.tooDeep 3)) := by
  have hle : sumLimits ≤ Limits.standard := ⟨by decide, by decide, by decide⟩
  have sum : compile sumLimits "ones + twos" =
      .ok ⟨"ones + twos", "ones + twos", .binary .add (.var "ones") (.var "twos")⟩ := by cbv
  have early : compile sumLimits "ones +" = .error (.grammar (.unexpected 6 .operand none)) := by
    cbv
  have deep : compile sumLimits "--ones" = .error (.grammar (.tooDeep 2)) := by cbv
  have roomy : compile .standard "--ones" =
      .ok ⟨"--ones", "--ones", .unary .neg (.unary .neg (.var "ones"))⟩ := by cbv
  refine ⟨hle, (limits_only_refuse.1 _ _ hle _).2 _ sum, ?_, ?_,
    limits_only_refuse.2 3 4 (by decide) Grammar.groupedTokens⟩
  · rcases (limits_only_refuse.1 _ _ hle "ones +").1 with same | ⟨e, he, herror⟩
    · rw [← same, early]
    · rw [early] at herror
      cases herror
      cases he
  · rcases (limits_only_refuse.1 _ _ hle "--ones").1 with same | exceeded
    · rw [deep, roomy] at same
      cases same
    · exact exceeded

end Formula
end GuildRating
