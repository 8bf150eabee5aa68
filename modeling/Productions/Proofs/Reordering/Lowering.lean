import Productions.Proofs.Lowering.Canonical
import Productions.Proofs.Recompilation.Arrangement
import Productions.Proofs.Renumbering.Expr
import Productions.Proofs.Reordering.Inlining

/-! Lowering where variables and lexical entries have other numbers. A rule is lowered to the same
expression but for the numbers of its symbols, and its lowering is reported on in neither order or
in both. -/
namespace Productions

open Lowering

def Lexicon.findLike? (lexicon : Lexicon) (entry : LexicalEntry) : Option Nat :=
  if entry.named then lexicon.findNamed? entry.name
  else lexicon.findAnonymous? entry.content entry.immediate

/-- Variables are numbered anew by their names, and entries by what they are found by. -/
def Renumbering.between (names : List String) (L : Lexicon) (vars : OrderedMap String Nat)
    (L' : Lexicon) : Renumbering where
  rule id := (names[id]?.bind vars.get?).getD 0
  lexical id := (L.entries[id]?.bind L'.findLike?).getD 0

namespace Naming

variable {n n' : Naming} {L L' : Lexicon} {names : List String}

def Counts (n : Naming) (names : List String) : Prop :=
  ∀ name id, n.vars.get? name = some id → names[id]? = some name

theorem between_named (names : List String) {name : String} {id id' : Nat}
    (found : L.findNamed? name = some id) (found' : L'.findNamed? name = some id') :
    (Renumbering.between names L n'.vars L').lexical id = id' := by
  obtain ⟨entry, place, named, rfl⟩ := Lexicon.exists_of_findNamed? found
  simp [Renumbering.between, place, Lexicon.findLike?, named, found']

theorem between_anonymous (names : List String) {content : Rule} {immediate : Bool} {id id' : Nat}
    (found : L.findAnonymous? content immediate = some id)
    (found' : L'.findAnonymous? content immediate = some id') :
    (Renumbering.between names L n'.vars L').lexical id = id' := by
  obtain ⟨entry, place, unnamed, rfl, rfl⟩ := Lexicon.exists_of_findAnonymous? found
  simp [Renumbering.between, place, Lexicon.findLike?, unnamed, found']

theorem between_rule (counts : n.Counts names) {name : String} {id id' : Nat}
    (found : n.vars.get? name = some id) (found' : n'.vars.get? name = some id') :
    (Renumbering.between names L n'.vars L').rule id = id' := by
  simp [Renumbering.between, counts name id found, found']

/-- What a name stands for has a new number. -/
theorem nameIn_between (h : n.Reordered n') (counts : n.Counts names) {name : String}
    (placed : n.Placed L (.symbol name)) (placed' : n'.Placed L' (.symbol name)) :
    n'.nameIn L' name
      = (n.nameIn L name).map (Renumbering.between names L n'.vars L').symbol := by
  have vars := h.vars name
  rw [nameIn, nameIn]
  cases found : n.vars.get? name with
  | some id =>
    rw [found] at vars
    obtain ⟨id', found'⟩ := Option.isSome_iff_exists.1 vars.symm
    rw [found']
    exact congrArg (some ∘ Symbol.rule) (between_rule counts found found').symm
  | none =>
    rw [found] at vars
    have found' : n'.vars.get? name = none := by simpa using vars.symm
    rw [found', ← h.kinds, ← h.externalId?_eq]
    dsimp only
    split
    · rename_i kind
      obtain ⟨id, entry⟩ := Option.isSome_iff_exists.1 (placed found kind)
      obtain ⟨id', entry'⟩ := Option.isSome_iff_exists.1 (placed' found' (h.kinds ▸ kind))
      rw [entry, entry']
      exact congrArg (some ∘ Symbol.lexical) (between_named names entry entry').symm
    · rfl
    · cases n.externalId? name true <;> rfl

/-- The symbol of a leaf has a new number. -/
theorem symbolIn_between (h : n.Reordered n') (counts : n.Counts names) {leaf : Rule}
    (placed : n.Placed L leaf) (placed' : n'.Placed L' leaf) :
    n'.symbolIn L' leaf
      = (n.symbolIn L leaf).map (Renumbering.between names L n'.vars L').symbol := by
  cases leaf with
  | terminal t =>
    rw [Placed, symbolIn] at placed placed'
    rw [symbolIn, symbolIn]
    rw [← h.outside?_eq] at placed' ⊢
    cases outside : n.outside? t with
    | some id => rfl
    | none =>
      simp only [outside, Option.map_none, Option.none_or, Option.isSome_map] at placed placed' ⊢
      obtain ⟨id, entry⟩ := Option.isSome_iff_exists.1 placed
      obtain ⟨id', entry'⟩ := Option.isSome_iff_exists.1 placed'
      rw [entry, entry']
      exact congrArg (some ∘ Symbol.lexical) (between_anonymous names entry entry').symm
  | token content immediate =>
    obtain ⟨placed, -⟩ := placed
    obtain ⟨placed', -⟩ := placed'
    rw [symbolIn, Option.isSome_map] at placed placed'
    rw [symbolIn, symbolIn]
    rw [← h.innerContent_eq] at placed' ⊢
    obtain ⟨id, entry⟩ := Option.isSome_iff_exists.1 placed
    obtain ⟨id', entry'⟩ := Option.isSome_iff_exists.1 placed'
    rw [entry, entry']
    exact congrArg (some ∘ Symbol.lexical) (between_anonymous names entry entry').symm
  | symbol name => exact nameIn_between h counts placed placed'
  | _ => rfl

/-- The new number of the symbol of a leaf can be undone. -/
theorem undone_between {names' : List String} (h : n.Reordered n') (counts : n.Counts names)
    (counts' : n'.Counts names') {leaf : Rule} (placed : n.Placed L leaf)
    (placed' : n'.Placed L' leaf) {s : Symbol} (found : n.symbolIn L leaf = some s) :
    (Renumbering.between names' L' n.vars L).symbol
      ((Renumbering.between names L n'.vars L').symbol s) = s := by
  have there := symbolIn_between h counts placed placed'
  have back := symbolIn_between h.symm counts' placed' placed
  rw [there, found, Option.map_some, Option.map_some, Option.some.injEq] at back
  exact back.symm

theorem undone_of_mem_symbols {names' : List String} (h : n.Reordered n')
    (counts : n.Counts names) (counts' : n'.Counts names') {rules : List Rule}
    (placed : ∀ leaf ∈ Rule.leavesAll rules, n.Placed L leaf ∧ n'.Placed L' leaf) :
    ∀ s ∈ Expr.symbolsAll (n.loweredAll L rules),
      (Renumbering.between names' L' n.vars L).symbol
        ((Renumbering.between names L n'.vars L').symbol s) = s := by
  intro s hs
  obtain ⟨leaf, mem, found⟩ := exists_leaf_of_mem_symbolsAll rules hs
  exact undone_between h counts counts' (placed leaf mem).1 (placed leaf mem).2 found

theorem lowered_leaf_between (h : n.Reordered n') (counts : n.Counts names) {leaf : Rule}
    (isLeaf : leaf.IsLeaf) (placed : n.Placed L leaf) (placed' : n'.Placed L' leaf) :
    n'.lowered L' leaf
      = (n.lowered L leaf).renumber (Renumbering.between names L n'.vars L') := by
  rw [lowered_of_isLeaf isLeaf, lowered_of_isLeaf isLeaf,
    symbolIn_between h counts placed placed']
  cases n.symbolIn L leaf <;> rfl

mutual

/-- A rule whose leaves are in their places is lowered to the same expression under new numbers. -/
theorem lowered_between {names' : List String} (h : n.Reordered n') (counts : n.Counts names)
    (counts' : n'.Counts names') : (r : Rule) →
    (∀ leaf ∈ r.leaves, n.Placed L leaf ∧ n'.Placed L' leaf) →
    n'.lowered L' r = (n.lowered L r).renumber (Renumbering.between names L n'.vars L')
  | .terminal _, placed | .symbol _, placed | .token _ _, placed =>
    have both := placed _ (List.mem_singleton_self _)
    lowered_leaf_between h counts trivial both.1 both.2
  | .seq members, placed => by
    rw [lowered, lowered, Expr.renumber_makeSeq, loweredAll_between h counts counts' members placed]
  | .choice members, placed => by
    rw [lowered, lowered, Expr.renumber_makeChoice _
      (undone_of_mem_symbols h counts counts' placed),
      loweredAll_between h counts counts' members placed]
  | .optional content, placed => lowered_between h counts counts' content placed
  | .repeated content _, placed | .prec _ _ content, placed | .aliased content _ _, placed
  | .field _ content, placed => by
    rw [lowered, lowered, Expr.renumber, lowered_between h counts counts' content placed]

theorem loweredAll_between {names' : List String} (h : n.Reordered n') (counts : n.Counts names)
    (counts' : n'.Counts names') : (rules : List Rule) →
    (∀ leaf ∈ Rule.leavesAll rules, n.Placed L leaf ∧ n'.Placed L' leaf) →
    n'.loweredAll L' rules
      = Expr.renumberAll (Renumbering.between names L n'.vars L') (n.loweredAll L rules)
  | [], _ => rfl
  | r :: rs, placed => by
    simp only [Rule.leavesAll, List.mem_append] at placed
    rw [loweredAll, loweredAll, Expr.renumberAll,
      lowered_between h counts counts' r fun leaf hl => placed leaf (.inl hl),
      loweredAll_between h counts counts' rs fun leaf hl => placed leaf (.inr hl)]

end

def Single (n : Naming) (r : Rule) : Prop :=
  ∀ L, (∀ leaf ∈ r.leaves, n.Placed L leaf) → ∃ s, n.lowered L r = .symbol s

theorem single_of_between {names' : List String} (h : n.Reordered n') (counts : n.Counts names)
    (counts' : n'.Counts names') {r : Rule} {s : Symbol} (lowered : n.lowered L r = .symbol s)
    (placed : ∀ leaf ∈ r.leaves, n.Placed L leaf) : n'.Single r := by
  intro L' placed'
  rw [lowered_between h counts counts' r fun leaf hl => ⟨placed leaf hl, placed' leaf hl⟩, lowered]
  exact ⟨_, rfl⟩

end Naming

namespace NormalForm

variable {n : Naming} {s s' : Lowering}

theorem lowerExtras_silent {extras : List Rule} (plain : ∀ extra ∈ extras, extra.isPlain = true)
    (quiet : ∀ extra ∈ extras, n.Single extra ∧ ∀ leaf ∈ extra.leaves, n.Silent leaf)
    {place : Nat} {symbols : List Symbol} (h : (lowerExtras n place extras).run s = (symbols, s'))
    (none : s.reports = []) : s'.reports = [] := by
  induction extras generalizing s symbols place with
  | nil => rwa [← (run_pure_eq_iff.1 h).2]
  | cons extra extras ih =>
    obtain ⟨e, s₁, first, h⟩ := run_bind_eq_iff.1 h
    have none₁ : s₁.reports = [] :=
      ((lower_enters (plain extra (by simp)) first).reports (quiet extra (by simp)).2).trans none
    obtain ⟨rfl, placed⟩ := (lower_run (plain extra (by simp)) first).2 none₁
    obtain ⟨symbol, single⟩ := (quiet extra (by simp)).1 _ placed
    rw [single] at h
    obtain ⟨rest', s₂, run, h⟩ := run_bind_eq_iff.1 h
    obtain ⟨-, rfl⟩ := run_pure_eq_iff.1 h
    exact ih (fun i hi => plain i (by simp [hi])) (fun i hi => quiet i (by simp [hi])) run none₁

structure Silences (g : Grammar) (n : Naming) (extras : List Rule) (kept : List SymbolInfo)
    (start : String) : Prop where
  bodies : ∀ info ∈ kept, n.QuietBody info
  extras : ∀ extra ∈ extras, n.Single extra ∧ ∀ leaf ∈ extra.leaves, n.Silent leaf
  word : ∀ name ∈ g.word, n.Silent (.symbol name)
  tokens : ∀ info ∈ n.table.infos, info.kind = .token → n.namedReports info.name = []
  hidden : ∀ info ∈ expandedInfos start n.table.infos, ∀ leaf ∈ (n.bodyOf info.name).leaves,
    n.Silent leaf

theorem lowerParts_silent {g : Grammar} (plain : n.Plain) {inlined : OrderedMap String Inlined}
    {extras : List Rule} (plainExtras : ∀ extra ∈ extras, extra.isPlain = true)
    {kept : List SymbolInfo} {start : String} (quiet : Silences g n extras kept start)
    {parts : Lowered} (h : (lowerParts g n inlined extras kept start).run s = (parts, s'))
    (none : s.reports = []) : s'.reports = [] := by
  rw [lowerParts_eq] at h
  obtain ⟨vars, s₁, varsRun, h⟩ := run_bind_eq_iff.1 h
  obtain ⟨symbols, s₂, extrasRun, h⟩ := run_bind_eq_iff.1 h
  obtain ⟨word, s₃, wordRun, h⟩ := run_bind_eq_iff.1 h
  obtain ⟨_, s₄, tokensRun, h⟩ := run_bind_eq_iff.1 h
  obtain ⟨expansions, s₅, hiddenRun, h⟩ := run_bind_eq_iff.1 h
  obtain ⟨rfl, rfl⟩ := run_pure_eq_iff.1 h
  have none₁ := ((lowerVariables_enters plain varsRun).reports quiet.bodies).trans none
  have none₂ := lowerExtras_silent plainExtras quiet.extras extrasRun none₁
  have none₃ := ((resolveWord_enters wordRun).reports quiet.word).trans none₂
  have none₄ := ((lowerTokens_enters tokensRun).reports quiet.tokens).trans none₃
  exact ((lowerHidden_enters plain hiddenRun).reports quiet.hidden).trans none₄

end NormalForm

end Productions
