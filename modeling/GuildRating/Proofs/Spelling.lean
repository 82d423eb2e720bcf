/-
# The spelling of a formula

Two texts with the same words are two spellings of one formula.  Scanning them finds the same
lexemes, and neither the parser nor the check looks at anything else, so both compile to the same
tree or fail alike, but for the places in the error (`compile_placeless`).  A text and its
collapsed form have the same words: what is stored and used as a key stands for the formula
(`collapse_preserves_formula`).
-/

import GuildRating.Formula.Basic
import GuildRating.Proofs.Grammar.Parse
import GuildRating.Proofs.Grammar.Places
import GuildRating.Proofs.Scan.Words
import GuildRating.Proofs.Text.Words

namespace GuildRating
namespace Formula

open Grammar

/-- The error without its places. -/
def Error.placeless : Error → Error
  | scan e => scan e.placeless
  | grammar e => grammar e.placeless
  | check e => check e
  | eval e => eval e

variable {limits limits' : Limits} {source source' : String}

/-- A text within the limit of length is scanned from its start. -/
theorem scan_of_le {limit : Nat} (h : source.length ≤ limit) :
    scan limit source = scanFrom 0 source.toList := by
  rw [scan, String.length_toList, if_neg (Nat.not_lt.2 h)]

/-- A text beyond the limit of length is not scanned. -/
theorem scan_of_lt {limit : Nat} (h : limit < source.length) :
    scan limit source = .error (.tooLong source.length limit) := by
  rw [scan, String.length_toList, if_pos h]

/-- What could be scanned is within the limit of length. -/
theorem length_le_of_scan {limit : Nat} {tokens : List Token} (h : scan limit source = .ok tokens) :
    source.length ≤ limit := by
  rcases Nat.lt_or_ge limit source.length with hl | hl
  · rw [scan_of_lt hl] at h
    cases h
  · exact hl

/-- Two texts that collapse to one have the same words. -/
theorem words_eq_of_collapse_eq (h : Text.collapse source = Text.collapse source') :
    Text.words source.toList = Text.words source'.toList := by
  rw [← Text.words_collapse source, h, Text.words_collapse]

/-- Texts with the same words have the same lexemes, or are refused for the same reason. -/
theorem lexemesOf_scanFrom_eq (h : Text.words source.toList = Text.words source'.toList) :
    lexemesOf (scanFrom 0 source.toList) = lexemesOf (scanFrom 0 source'.toList) := by
  have hs := lexemesOf_wordsFrom 0 [] source.toList
  have hs' := lexemesOf_wordsFrom 0 [] source'.toList
  rw [List.reverse_nil, List.nil_append, ← Text.words] at hs hs'
  rw [hs, hs', h]

/-- What is read depends on the lexemes alone, but for the places in the error. -/
theorem parsed_placeless {x y : Except ScanError (List Token)} (h : lexemesOf x = lexemesOf y)
    (limit : Nat) :
    (x.mapError Error.scan >>= fun tokens =>
        (Expr.parse limit tokens).mapError Error.grammar).mapError Error.placeless =
      (y.mapError Error.scan >>= fun tokens =>
        (Expr.parse limit tokens).mapError Error.grammar).mapError Error.placeless := by
  have split (z : Except GrammarError Expr) :
      (z.mapError Error.grammar).mapError Error.placeless =
        (z.mapError GrammarError.placeless).mapError Error.grammar := by
    rw [mapError_mapError, mapError_mapError]
    rfl
  cases x with
  | error e =>
    cases y with
    | error e' => exact congrArg (fun e => Except.error (Error.scan e)) (Except.error.inj h)
    | ok tokens' => cases h
  | ok tokens =>
    cases y with
    | error e' => cases h
    | ok tokens' =>
      have hlexemes : tokens.map Token.lexeme = tokens'.map Token.lexeme := Except.ok.inj h
      rw [mapError_ok, mapError_ok, ok_bind, ok_bind, split, split,
        Expr.parse_placeless hlexemes]

/-- Two spellings within the limit of length are read alike. -/
theorem read_placeless (h : Text.words source.toList = Text.words source'.toList)
    (hl : source.length ≤ limits.maxLength) (hl' : source'.length ≤ limits.maxLength) :
    (read limits source).mapError Error.placeless =
      (read limits source').mapError Error.placeless := by
  rw [read, read, scan_of_le hl, scan_of_le hl']
  exact parsed_placeless (lexemesOf_scanFrom_eq h) limits.maxDepth

/-- **Two spellings compile alike**: to the same tree, or to errors that differ in their places
only. -/
theorem compile_placeless (h : Text.words source.toList = Text.words source'.toList)
    (hl : source.length ≤ limits.maxLength) (hl' : source'.length ≤ limits.maxLength) :
    ((compile limits source).map Formula.tree).mapError Error.placeless =
      ((compile limits source').map Formula.tree).mapError Error.placeless := by
  have tree (source : String) :
      ((compile limits source).map Formula.tree).mapError Error.placeless =
        ((read limits source).mapError Error.placeless >>= fun tree =>
          ((tree.check .full limits).map fun _ => tree).mapError Error.check) := by
    rw [compile]
    cases read limits source with
    | error e => rfl
    | ok tree => cases hcheck : tree.check .full limits <;> simp [hcheck, Error.placeless]
  rw [tree, tree, read_placeless h hl hl']

/-- A compiled formula keeps its source, its normal form and the tree that was read. -/
theorem compile_eq_ok {formula : Formula} (h : compile limits source = .ok formula) :
    formula.source = source ∧ formula.normalized = Text.collapse source ∧
      read limits source = .ok formula.tree := by
  rw [compile] at h
  obtain ⟨tree, htree, h⟩ := bind_eq_ok.1 h
  obtain ⟨-, -, h⟩ := bind_eq_ok.1 h
  cases h
  exact ⟨rfl, rfl, htree⟩

/-- A tree that was read comes from the tokens of the whole text. -/
theorem read_eq_ok {tree : Expr} (h : read limits source = .ok tree) :
    source.length ≤ limits.maxLength ∧ ∃ tokens, scanFrom 0 source.toList = .ok tokens ∧
      Expr.parse limits.maxDepth tokens = .ok tree := by
  rw [read] at h
  obtain ⟨tokens, htokens, h⟩ := bind_eq_ok.1 h
  have hscan := mapError_eq_ok.1 htokens
  have hl := length_le_of_scan hscan
  rw [scan_of_le hl] at hscan
  exact ⟨hl, tokens, hscan, mapError_eq_ok.1 h⟩

/-- Two spellings have one tree, even if each was read under limits of its own. -/
theorem read_unique (h : Text.words source.toList = Text.words source'.toList) {tree tree' : Expr}
    (hread : read limits source = .ok tree) (hread' : read limits' source' = .ok tree') :
    tree = tree' := by
  obtain ⟨-, tokens, hscan, hparse⟩ := read_eq_ok hread
  obtain ⟨-, tokens', hscan', hparse'⟩ := read_eq_ok hread'
  have hlexemes : tokens.map Token.lexeme = tokens'.map Token.lexeme := by
    have := lexemesOf_scanFrom_eq h
    rw [hscan, hscan'] at this
    exact Except.ok.inj this
  obtain ⟨n, -, hder⟩ := derives_of_parse hparse
  obtain ⟨n', -, hder'⟩ := derives_of_parse hparse'
  -- Under a limit that has room for both, the parser cannot tell the two rows apart.
  have same := @Expr.parse_placeless (max n n') _ _ hlexemes
  rw [parse_of_derives _ hder, parse_of_derives _ hder', if_pos (Nat.le_max_left n n'),
    if_pos (Nat.le_max_right n n')] at same
  exact Except.ok.inj same

/-- Compiled spellings of one formula have one tree, and the same value for every player. -/
theorem compile_unique (h : Text.collapse source = Text.collapse source')
    {formula formula' : Formula} (hcompile : compile limits source = .ok formula)
    (hcompile' : compile limits' source' = .ok formula') :
    formula.tree = formula'.tree ∧
      ∀ player, formula.evaluate player = formula'.evaluate player := by
  have htree : formula.tree = formula'.tree :=
    read_unique (words_eq_of_collapse_eq h) (compile_eq_ok hcompile).2.2
      (compile_eq_ok hcompile').2.2
  refine ⟨htree, fun player => ?_⟩
  rw [evaluate, evaluate, htree]

/-- What agrees with a success, but for places, is one. -/
theorem exists_ok_of_placeless {x : Except Error Formula} {formula : Formula}
    (h : (x.map Formula.tree).mapError Error.placeless =
      ((Except.ok formula).map Formula.tree).mapError Error.placeless) :
    ∃ formula', x = .ok formula' := by
  cases x with
  | error e => cases h
  | ok formula' => exact ⟨formula', rfl⟩

/-- **Collapsing a text preserves the formula it stands for.**  A text within the limit of length
compiles exactly when its collapsed form does: to the same tree and normal form, or to errors that
differ in their places only.  Collapsing twice is collapsing once, and spellings with one normal
form that compile, be it under different limits, have one tree and one value for every player. -/
theorem collapse_preserves_formula :
    (∀ (limits : Limits) (source : String), source.length ≤ limits.maxLength →
      ((∃ formula, compile limits source = .ok formula) ↔
        ∃ formula, compile limits (Text.collapse source) = .ok formula) ∧
      (∀ formula formula', compile limits source = .ok formula →
        compile limits (Text.collapse source) = .ok formula' →
        formula.tree = formula'.tree ∧ formula.normalized = Text.collapse source ∧
          formula'.normalized = Text.collapse source) ∧
      (∀ e e', compile limits source = .error e →
        compile limits (Text.collapse source) = .error e' → e.placeless = e'.placeless)) ∧
    (∀ source, Text.collapse (Text.collapse source) = Text.collapse source) ∧
    (∀ (limits limits' : Limits) (source source' : String) (formula formula' : Formula),
      Text.collapse source = Text.collapse source' → compile limits source = .ok formula →
      compile limits' source' = .ok formula' →
      formula.tree = formula'.tree ∧
        ∀ player, formula.evaluate player = formula'.evaluate player) := by
  refine ⟨?_, Text.collapse_collapse, ?_⟩
  · intro limits source hl
    have hcollapse := Text.collapse_collapse source
    have same := compile_placeless (words_eq_of_collapse_eq hcollapse.symm) hl
      (Nat.le_trans (Text.length_collapse_le source) hl)
    refine ⟨?_, ?_, ?_⟩
    · constructor
      · rintro ⟨formula, h⟩
        rw [h] at same
        exact exists_ok_of_placeless same.symm
      · rintro ⟨formula, h⟩
        rw [h] at same
        exact exists_ok_of_placeless same
    · intro formula formula' h h'
      refine ⟨(compile_unique hcollapse.symm h h').1, (compile_eq_ok h).2.1, ?_⟩
      rw [(compile_eq_ok h').2.1, hcollapse]
    · intro e e' h h'
      rw [h, h'] at same
      exact Except.error.inj same
  · intro limits limits' source source' formula formula' h hcompile hcompile'
    exact compile_unique h hcompile hcompile'

/-- A sum with blanks of several kinds around it. -/
def spacedSum : Formula :=
  ⟨"  ones \t+twos\n", "ones +twos", .binary .add (.var "ones") (.var "twos")⟩

/-- The same sum, compiled from its normal form. -/
def collapsedSum : Formula := { spacedSum with source := "ones +twos" }

/-- The spaced sum and its normal form have one tree and one value; and `! =` is refused in either
spelling for the same character, at another place. -/
theorem collapse_spacedSum :
    compile .standard spacedSum.source = .ok spacedSum ∧
    compile .standard (Text.collapse spacedSum.source) = .ok collapsedSum ∧
    spacedSum.tree = collapsedSum.tree ∧
    (∀ player, spacedSum.evaluate player = collapsedSum.evaluate player) ∧
    (Error.scan (.unexpectedCharacter 6 '=')).placeless =
      (Error.scan (.unexpectedCharacter 7 '=')).placeless := by
  have spaced : compile .standard spacedSum.source = .ok spacedSum := by cbv
  have collapsed : compile .standard (Text.collapse spacedSum.source) = .ok collapsedSum := by cbv
  have refused : compile .standard "ones!\n = 1" = .error (.scan (.unexpectedCharacter 7 '=')) := by
    cbv
  have refused' : compile .standard (Text.collapse "ones!\n = 1") =
      .error (.scan (.unexpectedCharacter 6 '=')) := by
    cbv
  obtain ⟨-, -, errors⟩ := collapse_preserves_formula.1 .standard "ones!\n = 1" (by decide)
  obtain ⟨-, trees, -⟩ := collapse_preserves_formula.1 .standard spacedSum.source (by decide)
  exact ⟨spaced, collapsed, (trees _ _ spaced collapsed).1,
    (collapse_preserves_formula.2.2 _ _ _ _ _ _ (Text.collapse_collapse _).symm spaced collapsed).2,
    (errors _ _ refused refused').symm⟩

end Formula
end GuildRating
