import Productions.Proofs.Levels
import Productions.Proofs.Precedence.Orderings
import Productions.Proofs.Stages
import Productions.Proofs.Subtrees

/-! Named precedences settled. The stage that settles them fails if the orderings contradict each
other or if a name is unknown. Otherwise every tree of the normal form keeps its shape, and each
named annotation carries the level that was given for its name or else the derived one. -/
namespace Productions

inductive Precedence.Leveled (level : String → Option Level) :
    Precedence → Assoc → Precedence → Assoc → Prop where
  | integer (value assoc) : Leveled level (.integer value) assoc (.integer value) assoc
  | keeps {name assoc found} (known : level name = some found) (own : assoc ≠ .none) :
      Leveled level (.name name) assoc (.integer found.level) assoc
  | takes {name found} (known : level name = some found) :
      Leveled level (.name name) .none (.integer found.level) found.assoc

namespace Rule

def Names (name : String) (r : Rule) : Prop :=
  ∃ assoc content, Within (prec (.name name) assoc content) r

/-- Two rules of the same shape; only annotations read differently. -/
inductive Leveled (level : String → Option Level) : Rule → Rule → Prop where
  | terminal (t) : Leveled level (terminal t) (terminal t)
  | symbol (name) : Leveled level (symbol name) (symbol name)
  | seq {rs ss} (members : List.Forall₂ (Leveled level) rs ss) : Leveled level (seq rs) (seq ss)
  | choice {rs ss} (members : List.Forall₂ (Leveled level) rs ss) :
      Leveled level (choice rs) (choice ss)
  | repeated {r s} (repetition) (content : Leveled level r s) :
      Leveled level (repeated r repetition) (repeated s repetition)
  | optional {r s} (content : Leveled level r s) : Leveled level (optional r) (optional s)
  | token {r s} (immediate) (content : Leveled level r s) :
      Leveled level (token r immediate) (token s immediate)
  | prec {value assoc value' assoc' r s}
      (outer : Precedence.Leveled level value assoc value' assoc')
      (content : Leveled level r s) : Leveled level (prec value assoc r) (prec value' assoc' s)
  | aliased {r s} (value named) (content : Leveled level r s) :
      Leveled level (aliased r value named) (aliased s value named)
  | field {r s} (name) (content : Leveled level r s) : Leveled level (field name r) (field name s)

end Rule

namespace Expr

def Names (name : String) (e : Expr) : Prop :=
  ∃ assoc content, Within (prec (.name name) assoc content) e

inductive Leveled (level : String → Option Level) : Expr → Expr → Prop where
  | symbol (s) : Leveled level (symbol s) (symbol s)
  | seq {es fs} (members : List.Forall₂ (Leveled level) es fs) : Leveled level (seq es) (seq fs)
  | choice {es fs} (members : List.Forall₂ (Leveled level) es fs) :
      Leveled level (choice es) (choice fs)
  | repeated {e f} (content : Leveled level e f) : Leveled level (repeated e) (repeated f)
  | prec {value assoc value' assoc' e f}
      (outer : Precedence.Leveled level value assoc value' assoc')
      (content : Leveled level e f) : Leveled level (prec value assoc e) (prec value' assoc' f)
  | aliased {e f} (value named) (content : Leveled level e f) :
      Leveled level (aliased e value named) (aliased f value named)
  | field {e f} (name) (content : Leveled level e f) : Leveled level (field name e) (field name f)

end Expr

namespace NormalForm

inductive Names (g : NormalForm) (name : String) : Prop where
  | inVariable {v} (mem : v ∈ g.vars) (inside : v.body.Names name)
  | inExpansion {rule body} (mem : (rule, body) ∈ g.expansions.entries) (inside : body.Names name)
  | inEntry {entry} (mem : entry ∈ g.lexicon) (inside : entry.content.Names name)

/-- Two normal forms that differ in annotations only. -/
structure Leveled (level : String → Option Level) (g h : NormalForm) : Prop where
  vars : List.Forall₂ (fun v w => v.body.Leveled level w.body ∧ w = { v with body := w.body })
    g.vars h.vars
  expansions : g.expansions.Related (Expr.Leveled level) h.expansions
  lexicon : List.Forall₂ (fun a b => a.content.Leveled level b.content
    ∧ b = { a with content := b.content }) g.lexicon h.lexicon
  rest : h = { g with vars := h.vars, expansions := h.expansions, lexicon := h.lexicon }

def orderings (g : NormalForm) : List (List String) :=
  g.precedences.map fun entries => entries.map OrderingEntry.text

end NormalForm

namespace Levels

/-- A given level comes before a derived one. -/
theorem get?_mergeMissing (given derived : Levels) (name : String) :
    (given.mergeMissing derived).get? name = (given.get? name).or (derived.get? name) := by
  have all (es : List (String × Level)) (m : Levels) :
      (es.foldl (fun m e => m.insertIfNew e.1 e.2) m).get? name
        = (m.get? name).or (es.lookup name) := by
    induction es generalizing m with
    | nil => simp
    | cons e es ih =>
      obtain ⟨other, level⟩ := e
      rw [List.foldl_cons, ih, OrderedMap.get?_insertIfNew, Option.or_assoc, List.lookup_cons]
      by_cases same : name = other
      · simp [same]
      · have apart : (name == other) = false := by simp [same]
        simp [same, apart]
  exact all derived.entries given

theorem mem_keys_mergeMissing {given derived : Levels} {name : String} :
    name ∈ (given.mergeMissing derived).keys ↔ name ∈ given.keys ∨ name ∈ derived.keys := by
  rw [← OrderedMap.get?_isSome_iff, get?_mergeMissing, Option.isSome_or, Bool.or_eq_true,
    OrderedMap.get?_isSome_iff, OrderedMap.get?_isSome_iff]

theorem inEffect_of_derived {orderings : List (List OrderingEntry)} {given : Option Levels}
    {derived : Levels} (merged : Orderings.levels
      (orderings.map fun entries => entries.map OrderingEntry.text) = .ok derived) :
    inEffect orderings given = ((given.getD ∅).mergeMissing derived, []) := by
  rw [inEffect, merged]

theorem inEffect_eq_nil_iff {orderings : List (List OrderingEntry)} {given : Option Levels} :
    (inEffect orderings given).2 = [] ↔ ∃ derived, Orderings.levels
      (orderings.map fun entries => entries.map OrderingEntry.text) = .ok derived := by
  unfold inEffect
  cases merged : Orderings.levels (orderings.map fun entries => entries.map OrderingEntry.text) with
  | ok derived => exact ⟨fun _ => ⟨derived, rfl⟩, fun _ => rfl⟩
  | error names => exact ⟨nofun, nofun⟩

theorem unknown_eq_nil_iff {levels : Levels} {names : List String} :
    levels.unknown names = [] ↔ ∀ name ∈ names, name ∈ levels.keys := by
  constructor
  · intro none name mem
    by_contra fresh
    rw [← OrderedMap.contains_iff] at fresh
    have listed : name ∈ levels.unknown names := by simp [unknown, mem, fresh]
    rw [none] at listed
    cases listed
  · intro known
    rw [List.eq_nil_iff_forall_not_mem]
    intro name listed
    simp only [unknown, OrderedSet.mem_toList, OrderedSet.mem_ofList, List.mem_filter,
      Bool.not_eq_true', ← Bool.not_eq_true, OrderedMap.contains_iff] at listed
    exact listed.2 (known name listed.1)

/-- Where its name is known, an annotation gets the level and keeps its own associativity. -/
theorem leveled_resolve {levels : Levels} {value : Precedence} {assoc : Assoc}
    (known : ∀ name, value = .name name → name ∈ levels.keys) :
    Precedence.Leveled levels.get? value assoc (levels.resolve value assoc).1
      (levels.resolve value assoc).2 := by
  cases value with
  | integer level => exact .integer level assoc
  | name name =>
    obtain ⟨found, get⟩ := Option.isSome_iff_exists.1
      (OrderedMap.get?_isSome_iff.2 (known name rfl))
    simp only [resolve, get]
    by_cases own : assoc = .none
    · subst own
      exact .takes get
    · rw [if_neg own]
      exact .keeps get own

end Levels

namespace Rule

theorem levelNamesAll_eq_flatMap (rules : List Rule) :
    levelNamesAll rules = rules.flatMap levelNames := by
  induction rules with
  | nil => rfl
  | cons r rs ih => rw [levelNamesAll, ih, List.flatMap_cons]

theorem mem_levelNames_iff_children {name : String} {r : Rule} : name ∈ r.levelNames
    ↔ (∃ assoc content, prec (.name name) assoc content = r)
      ∨ ∃ c ∈ r.children, name ∈ c.levelNames := by
  cases r with
  | prec value assoc content =>
    cases value <;> simp [levelNames, children, Precedence.name?, eq_comm]
  | _ => simp [levelNames, children, levelNamesAll_eq_flatMap]

theorem mem_levelNames_iff {name : String} (r : Rule) : name ∈ r.levelNames ↔ r.Names name := by
  rw [exists_within_iff (fun _ => mem_levelNames_iff_children) r, Names]
  constructor
  · rintro ⟨_, inside, assoc, content, rfl⟩
    exact ⟨assoc, content, inside⟩
  · rintro ⟨assoc, content, inside⟩
    exact ⟨_, inside, assoc, content, rfl⟩

/-- Settling leaves the shape of a rule whose names are all known. -/
theorem leveled_resolveLevels {levels : Levels} (r : Rule)
    (known : ∀ name ∈ r.levelNames, name ∈ levels.keys) :
    r.Leveled levels.get? (r.resolveLevels levels) := by
  have all (rules : List Rule) (known : ∀ name ∈ levelNamesAll rules, name ∈ levels.keys)
      (ih : ∀ r ∈ rules, (∀ name ∈ r.levelNames, name ∈ levels.keys) →
        r.Leveled levels.get? (r.resolveLevels levels)) :
      List.Forall₂ (Leveled levels.get?) rules (resolveLevelsAll levels rules) := by
    rw [resolveLevelsAll_eq_map, List.forall₂_map_right_iff, List.forall₂_same]
    intro r mem
    apply ih r mem
    intro name inside
    apply known
    rw [levelNamesAll_eq_flatMap]
    exact List.mem_flatMap.2 ⟨r, mem, inside⟩
  induction r with
  | terminal t => exact .terminal t
  | symbol name => exact .symbol name
  | seq members ih => exact .seq (all members known ih)
  | choice members ih => exact .choice (all members known ih)
  | repeated content repetition ih => exact .repeated repetition (ih known)
  | optional content ih => exact .optional (ih known)
  | token content immediate ih => exact .token immediate (ih known)
  | prec value assoc content ih =>
    refine .prec (Levels.leveled_resolve ?_) (ih ?_)
    · rintro name rfl
      exact known name (List.mem_append_left _ (by simp [Precedence.name?]))
    · intro name inside
      exact known name (List.mem_append_right _ inside)
  | aliased content value named ih => exact .aliased value named (ih known)
  | field name content ih => exact .field name (ih known)

end Rule

namespace Expr

theorem levelNamesAll_eq_flatMap (es : List Expr) :
    levelNamesAll es = es.flatMap levelNames := by
  induction es with
  | nil => rfl
  | cons e es ih => rw [levelNamesAll, ih, List.flatMap_cons]

theorem mem_levelNames_iff_children {name : String} {e : Expr} : name ∈ e.levelNames
    ↔ (∃ assoc content, prec (.name name) assoc content = e)
      ∨ ∃ c ∈ e.children, name ∈ c.levelNames := by
  cases e with
  | prec value assoc content =>
    cases value <;> simp [levelNames, children, Precedence.name?, eq_comm]
  | _ => simp [levelNames, children, levelNamesAll_eq_flatMap]

theorem mem_levelNames_iff {name : String} (e : Expr) : name ∈ e.levelNames ↔ e.Names name := by
  rw [exists_within_iff (fun _ => mem_levelNames_iff_children) e, Names]
  constructor
  · rintro ⟨_, inside, assoc, content, rfl⟩
    exact ⟨assoc, content, inside⟩
  · rintro ⟨assoc, content, inside⟩
    exact ⟨_, inside, assoc, content, rfl⟩

theorem leveled_resolveLevels {levels : Levels} (e : Expr)
    (known : ∀ name ∈ e.levelNames, name ∈ levels.keys) :
    e.Leveled levels.get? (e.resolveLevels levels) := by
  have all (es : List Expr) (known : ∀ name ∈ levelNamesAll es, name ∈ levels.keys)
      (ih : ∀ e ∈ es, (∀ name ∈ e.levelNames, name ∈ levels.keys) →
        e.Leveled levels.get? (e.resolveLevels levels)) :
      List.Forall₂ (Leveled levels.get?) es (resolveLevelsAll levels es) := by
    rw [resolveLevelsAll_eq_map, List.forall₂_map_right_iff, List.forall₂_same]
    intro e mem
    apply ih e mem
    intro name inside
    apply known
    rw [levelNamesAll_eq_flatMap]
    exact List.mem_flatMap.2 ⟨e, mem, inside⟩
  induction e with
  | symbol s => exact .symbol s
  | seq members ih => exact .seq (all members known ih)
  | choice members ih => exact .choice (all members known ih)
  | repeated content ih => exact .repeated (ih known)
  | prec value assoc content ih =>
    refine .prec (Levels.leveled_resolve ?_) (ih ?_)
    · rintro name rfl
      exact known name (List.mem_append_left _ (by simp [Precedence.name?]))
    · intro name inside
      exact known name (List.mem_append_right _ inside)
  | aliased content value named ih => exact .aliased value named (ih known)
  | field name content ih => exact .field name (ih known)

end Expr

namespace NormalForm

variable {g : NormalForm} {levels : Levels}

/-- Nothing is reported exactly if every name of the normal form has a level. -/
theorem unknownLevelReports_eq_nil_iff :
    g.unknownLevelReports levels = [] ↔ ∀ name, g.Names name → name ∈ levels.keys := by
  simp only [unknownLevelReports, List.append_eq_nil_iff, List.flatMap_eq_nil_iff,
    unknownReports_eq_nil_iff, Levels.unknown_eq_nil_iff, Expr.mem_levelNames_iff,
    Rule.mem_levelNames_iff]
  constructor
  · rintro ⟨⟨vars, expansions⟩, lexicon⟩ name h
    cases h with
    | inVariable mem inside => exact vars _ mem name inside
    | inExpansion mem inside => exact expansions _ mem name inside
    | inEntry mem inside => exact lexicon _ mem name inside
  · intro known
    refine ⟨⟨?_, ?_⟩, ?_⟩
    · intro v mem name inside
      exact known name (.inVariable mem inside)
    · intro e mem name inside
      exact known name (.inExpansion mem inside)
    · intro entry mem name inside
      exact known name (.inEntry mem inside)

theorem not_names_resolveLevels (name : String) : ¬ (g.resolveLevels levels).Names name := by
  intro h
  cases h with
  | inVariable mem inside =>
    obtain ⟨v, -, rfl⟩ := List.mem_map.1 mem
    rw [← Expr.mem_levelNames_iff, Expr.levelNames_resolveLevels] at inside
    cases inside
  | inExpansion mem inside =>
    obtain ⟨e, -, same⟩ := List.mem_map.1 mem
    cases same
    rw [← Expr.mem_levelNames_iff, Expr.levelNames_resolveLevels] at inside
    cases inside
  | inEntry mem inside =>
    obtain ⟨entry, -, rfl⟩ := List.mem_map.1 mem
    rw [← Rule.mem_levelNames_iff, Rule.levelNames_resolveLevels] at inside
    cases inside

theorem leveled_resolveLevels (known : ∀ name, g.Names name → name ∈ levels.keys) :
    g.Leveled levels.get? (g.resolveLevels levels) := by
  refine ⟨?_, ?_, ?_, rfl⟩
  · rw [resolveLevels, List.forall₂_map_right_iff, List.forall₂_same]
    intro v mem
    refine ⟨v.body.leveled_resolveLevels fun name inside => ?_, rfl⟩
    exact known name (.inVariable mem ((Expr.mem_levelNames_iff _).1 inside))
  · rw [OrderedMap.Related, resolveLevels, OrderedMap.mapValues, List.forall₂_map_right_iff,
      List.forall₂_same]
    intro e mem
    refine ⟨rfl, e.2.leveled_resolveLevels fun name inside => ?_⟩
    exact known name (.inExpansion mem ((Expr.mem_levelNames_iff _).1 inside))
  · rw [resolveLevels, List.forall₂_map_right_iff, List.forall₂_same]
    intro entry mem
    refine ⟨entry.content.leveled_resolveLevels fun name inside => ?_, rfl⟩
    exact known name (.inEntry mem ((Rule.mem_levelNames_iff _).1 inside))

end NormalForm

namespace Normalized

variable {n : Normalized}

abbrev given (n : Normalized) : Levels := n.settings.levels.getD ∅

/-- The stage succeeds exactly if the orderings can be merged and every name then has a level. -/
theorem disambiguate_eq_ok_iff (quiet : Diagnostic.hasErrors n.reports = false)
    {d : Disambiguated} : n.disambiguate = .ok d ↔
      ∃ derived, Orderings.levels n.normal.orderings = .ok derived
        ∧ (∀ name, n.normal.Names name → name ∈ (n.given.mergeMissing derived).keys)
        ∧ d = ⟨n.normal.resolveLevels (n.given.mergeMissing derived), n.given.mergeMissing derived,
          Disambiguation.tables (n.normal.resolveLevels (n.given.mergeMissing derived)), n.start,
          n.reports⟩ := by
  rw [Grammar.disambiguate_eq]
  constructor
  · intro h
    obtain ⟨same, none⟩ := endStage_eq_ok h
    simp only [Diagnostic.hasErrors_append, Bool.or_eq_false_iff] at none
    have merged := Diagnostic.eq_nil_of_hasErrors
      (fun d hd => Grammar.isError_of_mem_inEffect hd) none.1.2
    have named := Diagnostic.eq_nil_of_hasErrors
      (fun d hd => Grammar.isError_of_mem_unknownLevelReports hd) none.2
    obtain ⟨derived, merges⟩ := Levels.inEffect_eq_nil_iff.1 merged
    rw [merged, named, Levels.inEffect_of_derived merges] at same
    rw [Levels.inEffect_of_derived merges] at named
    refine ⟨derived, merges, NormalForm.unknownLevelReports_eq_nil_iff.1 named, ?_⟩
    rw [← same, List.append_nil, List.append_nil]
  · rintro ⟨derived, merges, known, rfl⟩
    have named := NormalForm.unknownLevelReports_eq_nil_iff.2 known
    rw [Levels.inEffect_of_derived merges, named, List.append_nil, List.append_nil]
    exact endStage_of_quiet quiet

theorem exists_ok_iff (quiet : Diagnostic.hasErrors n.reports = false) :
    (∃ d, n.disambiguate = .ok d) ↔ Orderings.Acyclic n.normal.orderings
      ∧ ∀ name, n.normal.Names name → name ∈ n.given.keys
        ∨ ∃ ordering ∈ n.normal.orderings, name ∈ ordering := by
  constructor
  · rintro ⟨d, result⟩
    obtain ⟨derived, merges, known, -⟩ := (disambiguate_eq_ok_iff quiet).1 result
    obtain ⟨acyclic, rfl⟩ := Orderings.levels_eq_ok_iff.1 merges
    refine ⟨acyclic, fun name named => ?_⟩
    rw [← (Orderings.merged_of_acyclic acyclic).names, ← Levels.mem_keys_mergeMissing]
    exact known name named
  · rintro ⟨acyclic, known⟩
    have merges := Orderings.levels_eq_ok_iff.2 ⟨acyclic, rfl⟩
    refine ⟨_, (disambiguate_eq_ok_iff quiet).2 ⟨_, merges, fun name named => ?_, rfl⟩⟩
    rw [Levels.mem_keys_mergeMissing, (Orderings.merged_of_acyclic acyclic).names]
    exact known name named

theorem exists_error_iff :
    (∃ failure, n.disambiguate = .error failure) ↔ ¬ ∃ d, n.disambiguate = .ok d := by
  cases n.disambiguate <;> simp

/-- The named precedences of a normalized grammar are settled completely. The stage fails exactly
if the orderings contradict each other or if some name was neither given a level nor stands in an
ordering; otherwise no name is left, and annotations have changed as their names demand. -/
theorem disambiguate_settles {r : Resolved} (normalized : r.normalize = .ok n) :
    ((∃ failure, n.disambiguate = .error failure) ↔
        ¬ Orderings.Acyclic n.normal.orderings
          ∨ ∃ name, n.normal.Names name ∧ name ∉ n.given.keys
            ∧ ∀ ordering ∈ n.normal.orderings, name ∉ ordering)
      ∧ ∀ d, n.disambiguate = .ok d → (∀ name, ¬ d.normal.Names name)
        ∧ ∃ derived, Orderings.levels n.normal.orderings = .ok derived
          ∧ n.normal.Leveled (fun name => (n.given.get? name).or (derived.get? name)) d.normal := by
  have quiet : Diagnostic.hasErrors n.reports = false := by
    rw [Resolved.normalize_eq] at normalized
    obtain ⟨rfl, none⟩ := endStage_eq_ok normalized
    exact none
  constructor
  · rw [exists_error_iff, exists_ok_iff quiet, not_and_or]
    simp only [not_forall, not_or, not_exists, not_and, exists_prop]
  · intro d result
    obtain ⟨derived, merges, known, rfl⟩ := (disambiguate_eq_ok_iff quiet).1 result
    refine ⟨NormalForm.not_names_resolveLevels, derived, merges, ?_⟩
    have leveled := NormalForm.leveled_resolveLevels known
    rwa [funext (Levels.get?_mergeMissing _ derived)] at leveled

def namedSums : Grammar where
  name := "sums"
  rules := [⟨"sum", .choice [.terminal (.literal "1"),
    .prec (.name "add") .none (.seq [.symbol "sum", .terminal (.literal "+"), .symbol "sum"]),
    .prec (.name "multiply") .left
      (.seq [.symbol "sum", .terminal (.literal "*"), .symbol "sum"])], false⟩]
  extras := []
  precedences := [[.name "multiply", .name "add"]]
  conflicts := []
  externals := []
  inlined := []
  supertypes := []
  word := none

/-- Sums take both the level and the associativity that were given for their name. -/
def givenSums : Resolved :=
  ⟨namedSums, ⟨none, some (OrderedMap.ofList [("add", ⟨10, .right⟩)])⟩, namedSums.table, "sum", []⟩

theorem disambiguate_settles_givenSums : ∃ n d, givenSums.normalize = .ok n
    ∧ n.disambiguate = .ok d ∧ (∀ name, ¬ d.normal.Names name) := by
  have settled : (givenSums.normalize >>= disambiguate).isOk = true := by cbv
  cases normalized : givenSums.normalize with
  | error f =>
    rw [normalized] at settled
    cases settled
  | ok n =>
    rw [normalized] at settled
    obtain ⟨d, result⟩ := exists_ok_of_isOk settled
    exact ⟨n, d, rfl, result, ((disambiguate_settles normalized).2 d result).1⟩

end Normalized

end Productions
