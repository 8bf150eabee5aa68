import Productions.Proofs.Inlining.Cycles
import Productions.Proofs.Symbols.Kinds

/-! Soundness of the reports on unit cycles. Whatever is reported as a cycle is one: distinct rules
of one component of the references, each of which derives the next one alone, with everything around
it deriving the empty text. A report tells a lexical cycle by its rules, and no component has two
reports. -/
namespace Productions

open Relation

namespace Diagnostic

def isUnitCycle (d : Diagnostic) : Bool := d.kind = .cyclicLexicalRule || d.kind = .unitCycle

end Diagnostic

namespace Grammar

variable {g : Grammar} {a b : String}

theorem vanishes_of_mem_nullableNames {name : String} (found : name ∈ g.nullableNames) :
    Vanishes (Rule.derivedFrom g.reference name) := by
  refine OrderedSet.leastClosed_induction (Symbols.declared g).bodies.entries
    (p := fun name => Vanishes (Rule.derivedFrom g.reference name))
    (fun found old e mem holds => ?_) name found
  obtain ⟨w, derives, silent⟩ : ∃ w, Rule.Derives g.reference e.2 w ∧ Letter.silent w = true :=
    Rule.derives_silent_of_nullable (fun name hn => old name (OrderedSet.contains_iff.1 hn)) holds
  have entry := OrderedMap.get?_eq_some_iff.2 mem
  rw [SymbolTable.bodies, OrderedMap.get?_mapValues, Option.map_eq_some_iff] at entry
  obtain ⟨info, declared, body⟩ := entry
  obtain ⟨d, index, rule, rfl⟩ := Symbols.exists_of_get?_declared declared
  have stands : g.reference e.1 = .token e.2 ∨ g.reference e.1 = .rule e.2 := by
    rw [reference, rule, ← body]
    dsimp only
    split
    · exact .inl rfl
    · exact .inr rfl
  rcases stands with ref | ref
  · exact ⟨_, .tokenRule ref derives, by rwa [Letter.silent_bare]⟩
  · exact ⟨_, .rule ref derives, silent⟩

theorem derivesEmpty_of_nullable {r : Rule}
    (nullable : r.nullable g.nullableNames.contains = true) : g.DerivesEmpty r :=
  Rule.derives_silent_of_nullable
    (fun _ hn => vanishes_of_mem_nullableNames (OrderedSet.contains_iff.1 hn)) nullable

/-- The steps of the unit graphs are derivations of one rule by another one alone. -/
theorem derivesAlone_of_unitStep (step : Symbols.UnitStep (Symbols.declared g) a b) :
    g.DerivesAlone a b := by
  obtain ⟨info, -, declared, -, -, -, unit⟩ := step
  obtain ⟨d, index, rule, rfl⟩ := Symbols.exists_of_get?_declared declared
  obtain ⟨x, y, form, around⟩ :=
    Rule.exists_form_of_mem_unitOccurrences d.body (OrderedSet.mem_ofList.1 unit)
  exact ⟨d, x, y, rule, form, fun part mem => derivesEmpty_of_nullable (around part mem)⟩

theorem DerivesAlone.refersTo (h : g.DerivesAlone a b) : g.RefersTo a b := by
  obtain ⟨d, x, y, rule, form, -⟩ := h
  exact ⟨d, rule, Rule.mem_occurrences_of_form d.body form (by simp)⟩

def SameComponent (g : Grammar) (a b : String) : Prop :=
  ReflTransGen g.RefersTo a b ∧ ReflTransGen g.RefersTo b a

def IsLexicalMaterial (g : Grammar) (name : String) : Prop :=
  ∃ d, g.get? name = some d ∧ (g.Hides d ∨ d.body.TokenShape)

/-- What the reports on unit cycles should say. -/
structure CyclesGenuine (g : Grammar) (reports : List Diagnostic) : Prop where
  genuine : ∀ d ∈ reports, d.isUnitCycle = true → IsCircle g.DerivesAlone d.rules
  shown : ∀ d ∈ reports, d.isUnitCycle = true →
    d = .about d.kind (Graph.showCycle d.rules) d.rules []
  lexical : ∀ d ∈ reports, d.isUnitCycle = true →
    (d.kind = .cyclicLexicalRule ↔ ∃ name ∈ d.rules, g.IsLexicalMaterial name)
  within : ∀ d ∈ reports, d.isUnitCycle = true →
    ∀ a ∈ d.rules, ∀ b ∈ d.rules, g.SameComponent a b
  once : (reports.filter Diagnostic.isUnitCycle).Pairwise
    fun d d' => ∀ a ∈ d.rules, ∀ b ∈ d'.rules, ¬ g.SameComponent a b

end Grammar

namespace Symbols

variable {g : Grammar} {component : List String} {d : Diagnostic}

theorem mem_component_of_edge {t : SymbolTable} {nullable : OrderedSet String} {a b : String}
    (edge : (unitGraph t nullable component).Edge a b) : b ∈ component := by
  have next := edge.1
  rw [Graph.successors, OrderedMap.getD] at next
  cases node : (unitGraph t nullable component).get? a with
  | none =>
    rw [node] at next
    cases next
  | some succ =>
    obtain ⟨info, -, -, rfl⟩ := unitNode_of_get? node
    rw [node, Option.getD_some, OrderedSet.mem_toList, OrderedSet.mem_ofList,
      List.mem_filter] at next
    exact List.contains_iff_mem.1 next.2

abbrev reportOn (g : Grammar) (component : List String) : Option Diagnostic :=
  unitCycleReport (declared g) g.nullableNames component

/-- A report on a component is about rules of it that derive each other alone in a circle. -/
theorem circle_of_reportOn (h : reportOn g component = some d) :
    IsCircle g.DerivesAlone d.rules ∧ ∀ name ∈ d.rules, name ∈ component := by
  obtain ⟨cycle, search, rfl⟩ := Option.map_eq_some_iff.1 h
  have circle := Graph.isCircle_of_findCycle search
  refine ⟨circle.imp fun a b edge => Grammar.derivesAlone_of_unitStep (edge_unitGraph_le edge),
    fun name mem => ?_⟩
  obtain ⟨before, -, edge⟩ := TransGen.tail'_iff.1 (circle.transGen mem mem)
  exact mem_component_of_edge edge

theorem isLexicalMaterial_iff {name : String} : ((declared g).isInlined name
    || isTokenRule (declared g) name) = true ↔ g.IsLexicalMaterial name := by
  rw [Bool.or_eq_true, SymbolTable.isInlined, SymbolTable.kind?, beq_iff_eq]
  constructor
  · intro material
    have known : ∃ info, (declared g).get? name = some info := by
      rcases material with hidden | shaped
      · obtain ⟨info, get, -⟩ := Option.map_eq_some_iff.1 hidden
        exact ⟨info, get⟩
      · exact SymbolTable.contains_iff.1 (IsLexical.shaped shaped).contains
    obtain ⟨info, get⟩ := known
    obtain ⟨d, index, rule, rfl⟩ := exists_of_get?_declared get
    rw [get, Option.map_some, Option.some.injEq, Grammar.hidden_declare_iff,
      Grammar.isTokenRule_declared rule] at material
    exact ⟨d, rule, material⟩
  · rintro ⟨d, rule, material⟩
    obtain ⟨index, get⟩ := Grammar.get?_declared_of_get? rule
    rwa [get, Option.map_some, Option.some.injEq, Grammar.hidden_declare_iff,
      Grammar.isTokenRule_declared rule]

/-- A report says by its kind whether some rule of the cycle is hidden or shaped like a token. -/
theorem kind_of_reportOn (h : reportOn g component = some d) : d.isUnitCycle = true
    ∧ (d.kind = .cyclicLexicalRule ↔ ∃ name ∈ d.rules, g.IsLexicalMaterial name) := by
  obtain ⟨cycle, -, rfl⟩ := Option.map_eq_some_iff.1 h
  have found : (cycle.any fun name => (declared g).isInlined name || isTokenRule (declared g) name)
      = true ↔ ∃ name ∈ cycle, g.IsLexicalMaterial name := by
    simp only [List.any_eq_true, isLexicalMaterial_iff]
  show (decide (cycleKind _ _ = _) || decide (cycleKind _ _ = _)) = true
    ∧ (cycleKind _ _ = _ ↔ ∃ name ∈ cycle, _)
  rw [← found]
  unfold cycleKind
  split <;> simp_all

theorem not_cycle_of_mem_unresolvedIn {known : String → Bool} {place : String}
    {owner : Option String} {names : List String} (h : d ∈ unresolvedIn known place owner names) :
    d.isUnitCycle = false := by
  obtain ⟨name, -, rfl⟩ := List.mem_map.1 h
  rfl

theorem not_cycle_of_mem_referenceReports {t : SymbolTable} (h : d ∈ referenceReports g t) :
    d.isUnitCycle = false := by
  simp only [referenceReports, List.mem_append, List.mem_flatMap] at h
  rcases h with (((((⟨_, -, h⟩ | ⟨_, -, h⟩) | h) | h) | h) | h) | h
  all_goals exact not_cycle_of_mem_unresolvedIn h

/-- Duplicate names, and names that are not what a supertype or the word has to be, are reported
apart from cycles. -/
theorem not_cycle_of_mem_nameReports {t : SymbolTable}
    (h : d ∈ duplicateReports g t ∨ d ∈ supertypeReports g t ∨ d ∈ wordReports g t) :
    d.isUnitCycle = false := by
  rcases h with h | h | h
  all_goals
    obtain ⟨name, -, made⟩ := List.mem_filterMap.1 h
    split at made
    · split at made
      · cases made
      · cases made
        rfl
    · cases made

/-- Of all reports on names, those on cycles are the ones on components. -/
theorem filter_resolve (g : Grammar) : (resolve g).2.filter Diagnostic.isUnitCycle
    = unitCycleReports (declared g) (referenceGraph (declared g)) g.nullableNames := by
  have apart {ds : List Diagnostic} (others : ∀ d ∈ ds, d.isUnitCycle = false) :
      ds.filter Diagnostic.isUnitCycle = [] := List.filter_eq_nil_iff.2 (by simpa using others)
  have cycles : ∀ d ∈ unitCycleReports (declared g) (referenceGraph (declared g)) g.nullableNames,
      d.isUnitCycle = true := by
    intro d mem
    obtain ⟨component, -, made⟩ := List.mem_filterMap.1 mem
    exact (kind_of_reportOn made).1
  simp only [resolve, List.filter_append, List.filter_eq_self.2 cycles,
    apart fun _ mem => not_cycle_of_mem_nameReports (.inl mem),
    apart fun _ => not_cycle_of_mem_referenceReports,
    apart fun _ mem => not_cycle_of_mem_nameReports (.inr (.inl mem)),
    apart fun _ mem => not_cycle_of_mem_nameReports (.inr (.inr mem)),
    List.nil_append, List.append_nil]

end Symbols

def reportedBy {α : Type} (reports : α → List Diagnostic) : Except Failure α → List Diagnostic
  | .ok result => reports result
  | .error f => f.diagnostics

def Uncyclic (ds : List Diagnostic) : Prop := ∀ d ∈ ds, d.isUnitCycle = false

theorem Uncyclic.append {ds es : List Diagnostic} (h : Uncyclic ds) (h' : Uncyclic es) :
    Uncyclic (ds ++ es) := List.forall_mem_append.2 ⟨h, h'⟩

theorem Uncyclic.filter_eq {ds : List Diagnostic} (h : Uncyclic ds) :
    ds.filter Diagnostic.isUnitCycle = [] :=
  List.filter_eq_nil_iff.2 fun d mem => by simp [h d mem]

theorem reportedBy_endStage {α : Type} {reports : α → List Diagnostic} {stage : Stage}
    {ds : List Diagnostic} {result : α} (own : reports result = ds) :
    reportedBy reports (endStage stage ds result) = ds := by
  unfold endStage
  split
  · rfl
  · exact own

theorem Uncyclic.endStage {α : Type} {reports : α → List Diagnostic} {stage : Stage}
    {ds : List Diagnostic} {result : α} (h : Uncyclic ds) (own : reports result = ds) :
    Uncyclic (reportedBy reports (endStage stage ds result)) := by
  rwa [reportedBy_endStage own]

theorem Uncyclic.bind {α β : Type} {reports : α → List Diagnostic} {reports' : β → List Diagnostic}
    {out : Except Failure α} {next : α → Except Failure β}
    (first : Uncyclic (reportedBy reports out))
    (rest : ∀ a, Uncyclic (reports a) → Uncyclic (reportedBy reports' (next a))) :
    Uncyclic (reportedBy reports' (out >>= next)) := by
  cases out with
  | ok a => exact rest a first
  | error f => exact first

theorem uncyclic_normalize {r : Resolved} (h : Uncyclic r.reports) :
    Uncyclic (reportedBy Normalized.reports r.normalize) := by
  rw [Resolved.normalize_eq]
  refine Uncyclic.endStage (h.append fun d mem => ?_) rfl
  rw [NormalForm.ofGrammar_eq, List.mem_append] at mem
  rw [Diagnostic.isUnitCycle]
  rcases mem with mem | mem
  · rw [NormalForm.kind_of_mem_extrasRun _ mem]
    rfl
  · rcases NormalForm.kind_of_mem_partsRun _ _ mem with kind | kind <;> rw [kind] <;> rfl

theorem uncyclic_disambiguate {n : Normalized} (h : Uncyclic n.reports) :
    Uncyclic (reportedBy Disambiguated.reports n.disambiguate) := by
  rw [Grammar.disambiguate_eq]
  refine Uncyclic.endStage ((h.append fun d mem => ?_).append fun d mem => ?_) rfl
  · unfold Levels.inEffect at mem
    dsimp only at mem
    split at mem
    · cases mem
    · rw [List.mem_singleton.1 mem]
      rfl
  · have each {owner : String} {names : List String} {levels : Levels}
        (mem : d ∈ NormalForm.unknownReports levels owner names) : d.isUnitCycle = false := by
      obtain ⟨name, -, rfl⟩ := List.mem_map.1 mem
      rfl
    simp only [NormalForm.unknownLevelReports, List.mem_append, List.mem_flatMap] at mem
    rcases mem with (⟨v, -, mem⟩ | ⟨e, -, mem⟩) | ⟨entry, -, mem⟩
    all_goals exact each mem

theorem uncyclic_tokenReports (entry : LexicalEntry) :
    Uncyclic (Validation.tokenReports entry) := by
  intro d mem
  unfold Validation.tokenReports at mem
  dsimp only at mem
  split at mem
  · rw [List.mem_singleton.1 mem]
    rfl
  · obtain ⟨t, -, made⟩ := List.mem_filterMap.1 mem
    cases t with
    | literal text => cases made
    | pattern value flags =>
      obtain ⟨problem, -, rfl⟩ := Option.map_eq_some_iff.1 made
      rfl

theorem uncyclic_validate {s : Disambiguated} (h : Uncyclic s.reports) :
    Uncyclic (reportedBy CompiledGrammar.warnings s.validate) := by
  refine Uncyclic.endStage (h.append fun d mem => ?_) rfl
  simp only [Validation.reports, List.mem_append, List.mem_flatMap, List.mem_filterMap] at mem
  rcases mem with (((⟨entry, -, mem⟩ | mem) | ⟨table, -, made⟩) | mem) | mem
  · exact uncyclic_tokenReports entry d mem
  · simp only [Validation.repeatReports, List.mem_append, List.mem_map] at mem
    rcases mem with (⟨v, -, rfl⟩ | ⟨name, -, rfl⟩) | ⟨entry, -, rfl⟩ <;> rfl
  · unfold Validation.ambiguityReport? at made
    split at made
    · cases made
    · split at made
      · cases made
      · split at made <;> cases made
        rfl
  · obtain ⟨set, -, rfl⟩ := List.mem_map.1 mem
    rfl
  · obtain ⟨info, -, rfl⟩ := List.mem_map.1 mem
    rfl

namespace Grammar

variable {g : Grammar} {settings : Settings}

def reported (g : Grammar) (settings : Settings) : List Diagnostic :=
  reportedBy CompiledGrammar.warnings (g.compile settings)

theorem not_cycle_of_startRule {t : SymbolTable} {d : Diagnostic}
    (h : startRule g settings t = .error d) : d.isUnitCycle = false := by
  unfold startRule at h
  cases given : settings.start with
  | some name =>
    by_cases known : t.contains name = true
    · simp only [given, known, pure, Except.pure, bind, Except.bind, if_true] at h
      split at h <;> cases h
      rfl
    · simp only [given, if_neg known, bind, Except.bind] at h
      cases h
      rfl
  | none =>
    cases head : t.infos.head? with
    | none =>
      simp only [given, head, bind, Except.bind] at h
      cases h
      rfl
    | some info =>
      simp only [given, head, pure, Except.pure, bind, Except.bind] at h
      split at h <;> cases h
      rfl

/-- The later stages report no cycle of their own, and they are not reached if there is one. -/
theorem filter_reported (g : Grammar) (settings : Settings) :
    (g.reported settings).filter Diagnostic.isUnitCycle
      = (Symbols.resolve g).2.filter Diagnostic.isUnitCycle := by
  rw [reported, compile]
  cases resolved : g.resolve settings with
  | error f =>
    show (reportedBy Resolved.reports (.error f)).filter _ = _
    rw [← resolved, Grammar.resolve]
    dsimp only
    split
    · exact congrArg (List.filter _) (reportedBy_endStage rfl)
    · rename_i report start
      simp [reportedBy, not_cycle_of_startRule start]
  | ok r =>
    obtain ⟨names, start, -, rfl⟩ := resolve_eq_ok resolved
    have normalized : Uncyclic (reportedBy Normalized.reports
        (Resolved.normalize ⟨g, settings, g.table, start, []⟩)) :=
      uncyclic_normalize fun d mem => absurd mem List.not_mem_nil
    rw [names, List.filter_nil]
    exact (normalized.bind fun _ quiet => (uncyclic_disambiguate quiet).bind
      fun _ => uncyclic_validate).filter_eq

/-- What is reported about a cycle is the report on a component. -/
theorem exists_component_of_reported {d : Diagnostic} (mem : d ∈ g.reported settings)
    (cycle : d.isUnitCycle = true) :
    ∃ component ∈ (Symbols.referenceGraph (Symbols.declared g)).components,
      Symbols.reportOn g component = some d := by
  have found : d ∈ (g.reported settings).filter Diagnostic.isUnitCycle :=
    List.mem_filter.2 ⟨mem, cycle⟩
  rw [filter_reported, Symbols.filter_resolve] at found
  obtain ⟨component, listed, made⟩ := List.mem_filterMap.1 found
  exact ⟨component, (List.mem_filter.1 listed).1, made⟩

theorem isRule_of_mem_component {component : List String} {name : String}
    (listed : component ∈ (Symbols.referenceGraph (Symbols.declared g)).components)
    (mem : name ∈ component) : g.IsRule name := by
  have known := (Graph.mem_component_iff listed (b := name) mem).1
  rwa [Symbols.referenceGraph, OrderedMap.keys_mapValues, Symbols.mem_keys_declared] at known

theorem SameComponent.mutual {a b : String} (h : g.SameComponent a b) (ruleA : g.IsRule a)
    (ruleB : g.IsRule b) : (Symbols.referenceGraph (Symbols.declared g)).Mutual a b := by
  have along {a b : String} (known : g.IsRule b) (path : ReflTransGen g.RefersTo a b) :
      ReflTransGen (Symbols.referenceGraph (Symbols.declared g)).Edge a b := by
    rcases reflTransGen_iff_eq_or_transGen.1 path with rfl | path
    · exact .refl
    · exact (transGen_edge path known).to_reflTransGen
  exact ⟨along ruleB h.1, along ruleA h.2⟩

/-- The rules of two reports are in two components. -/
theorem pairwise_unitCycleReports (g : Grammar) : (Symbols.unitCycleReports (Symbols.declared g)
    (Symbols.referenceGraph (Symbols.declared g)) g.nullableNames).Pairwise
      fun d d' => ∀ a ∈ d.rules, ∀ b ∈ d'.rules, ¬ g.SameComponent a b := by
  refine List.Pairwise.filterMap _ ?_
    ((List.Pairwise.and_mem.1 (Graph.pairwise_components _)).filter _)
  rintro c c' ⟨hc, hc', apart⟩ d made d' made' a ha b hb same
  have inside := (Symbols.circle_of_reportOn made).2 a ha
  have inside' := (Symbols.circle_of_reportOn made').2 b hb
  have ruleB := isRule_of_mem_component hc' inside'
  have both := same.mutual (isRule_of_mem_component hc inside) ruleB
  refine apart ((Graph.mem_component_iff hc inside).2.2 ⟨?_, both⟩) inside'
  rwa [Symbols.referenceGraph, OrderedMap.keys_mapValues, Symbols.mem_keys_declared]

/-- Whatever a compilation reports as a cycle of rules that consume nothing is one. The rules lie in
one component of the references, which has no other report, and the report says whether one of them
is hidden or shaped like a token. -/
theorem cycles_genuine (g : Grammar) (settings : Settings) :
    g.CyclesGenuine (g.reported settings) where
  genuine d mem cycle := by
    obtain ⟨component, -, made⟩ := exists_component_of_reported mem cycle
    exact (Symbols.circle_of_reportOn made).1
  shown d mem cycle := by
    obtain ⟨component, -, made⟩ := exists_component_of_reported mem cycle
    obtain ⟨_, -, rfl⟩ := Option.map_eq_some_iff.1 made
    rfl
  lexical d mem cycle := by
    obtain ⟨component, -, made⟩ := exists_component_of_reported mem cycle
    exact (Symbols.kind_of_reportOn made).2
  within d mem cycle a ha b hb := by
    obtain ⟨component, -, made⟩ := exists_component_of_reported mem cycle
    have circle := (Symbols.circle_of_reportOn made).1.imp fun a b => DerivesAlone.refersTo
    exact ⟨(circle.transGen ha hb).to_reflTransGen, (circle.transGen hb ha).to_reflTransGen⟩
  once := by
    rw [filter_reported, Symbols.filter_resolve]
    exact pairwise_unitCycleReports g

/-- Statements and blocks that are each other, and gaps that are each other before an optional line
break. -/
def gappedBlocks : Grammar where
  name := "blocks"
  rules := [
    ⟨"document", .seq [.symbol "statement", .symbol "_gap"], false⟩,
    ⟨"statement", .choice [.symbol "block", .terminal (.literal ";")], false⟩,
    ⟨"block", .choice [.terminal (.literal "{}"), .symbol "statement"], false⟩,
    ⟨"_gap", .choice [.symbol "_break", .terminal (.literal " ")], true⟩,
    ⟨"_break", .seq [.symbol "_gap", .optional (.terminal (.literal "\n"))], true⟩]
  extras := []
  precedences := []
  conflicts := []
  externals := []
  inlined := []
  supertypes := []
  word := none

/-- Each of the two components has its report, and the two say different things. -/
theorem cycles_genuine_gappedBlocks : gappedBlocks.CyclesGenuine (gappedBlocks.reported .default)
    ∧ (gappedBlocks.reported .default).map (fun d => (d.kind, d.rules))
      = [(.unitCycle, ["statement", "block"]), (.cyclicLexicalRule, ["_gap", "_break"])] := by
  refine ⟨cycles_genuine gappedBlocks .default, ?_⟩
  cbv

end Grammar

end Productions
