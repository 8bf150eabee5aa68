import Productions.Proofs.Derivation.Units
import Productions.Proofs.Graph.Cycle
import Productions.Proofs.Graph.Order
import Productions.Proofs.Stages

/-! Completeness of the reports on unit cycles. If rules without fields derive each other alone in a
cycle, they lie in one component of the references, every step of the cycle is an edge of the
component's unit graph, and the search finds a cycle there. -/
namespace Productions

open Relation

namespace Symbols

variable {g : Grammar} {name : String}

theorem successors_referenceGraph {t : SymbolTable} {info : SymbolInfo}
    (found : t.get? name = some info) : (referenceGraph t).successors name
      = (OrderedSet.ofList (info.refs.toList.filter t.contains)).toList := by
  rw [SymbolTable.get?] at found
  rw [Graph.successors, OrderedMap.getD, referenceGraph, OrderedMap.get?_mapValues, found]
  rfl

theorem mem_keys_referenceGraph {t : SymbolTable} {info : SymbolInfo}
    (found : t.get? name = some info) : name ∈ (referenceGraph t).keys := by
  rw [referenceGraph, OrderedMap.keys_mapValues]
  exact OrderedMap.get?_isSome_iff.1 (Option.isSome_of_eq_some found)

theorem edge_referenceGraph {t : SymbolTable} {a b : String} {info info' : SymbolInfo}
    (found : t.get? a = some info) (found' : t.get? b = some info') (ref : b ∈ info.refs) :
    (referenceGraph t).Edge a b := by
  refine ⟨?_, mem_keys_referenceGraph found'⟩
  rw [successors_referenceGraph found, OrderedSet.mem_toList, OrderedSet.mem_ofList]
  exact List.mem_filter.2 ⟨ref, SymbolTable.contains_iff.2 ⟨info', found'⟩⟩

/-- A fold that sets the entry of a key when it comes to it, and leaves it alone otherwise. -/
theorem get?_foldl_of_mem {α : Type} {step : OrderedMap String α → String → OrderedMap String α}
    {value : α} (sets : ∀ m, (step m name).get? name = some value)
    (keeps : ∀ m other, other ≠ name → (step m other).get? name = m.get? name)
    (names : List String) (m : OrderedMap String α)
    (h : name ∈ names ∨ m.get? name = some value) :
    (names.foldl step m).get? name = some value := by
  induction names generalizing m with
  | nil => exact h.resolve_left (by simp)
  | cons other names ih =>
    rw [List.foldl_cons]
    refine ih _ ?_
    by_cases same : other = name
    · exact .inr (same ▸ sets m)
    · refine h.imp (fun mem => (List.mem_cons.1 mem).resolve_left (Ne.symm same)) fun old => ?_
      rw [keeps m other same, old]

variable {t : SymbolTable} {nullable : OrderedSet String} {component : List String}

theorem get?_unitGraph {info : SymbolInfo} (mem : name ∈ component)
    (found : t.get? name = some info) (fieldless : info.body.hasField = false) :
    (unitGraph t nullable component).get? name = some (OrderedSet.ofList
      ((info.body.units nullable.contains).toList.filter component.contains)) := by
  refine get?_foldl_of_mem (fun m => ?_) (fun m other differs => ?_) component ∅ (.inl mem)
  · simp only [found, fieldless]
    rw [if_neg (by simp), OrderedMap.get?_insert, if_pos rfl]
  · cases t.get? other with
    | none => rfl
    | some info =>
      simp only
      split
      · rfl
      · rw [OrderedMap.get?_insert, if_neg (Ne.symm differs)]

theorem edge_unitGraph {a b : String} {info info' : SymbolInfo} (ha : a ∈ component)
    (hb : b ∈ component) (found : t.get? a = some info) (found' : t.get? b = some info')
    (fieldless : info.body.hasField = false) (fieldless' : info'.body.hasField = false)
    (unit : b ∈ info.body.units nullable.contains) :
    (unitGraph t nullable component).Edge a b := by
  constructor
  · rw [Graph.successors, OrderedMap.getD, get?_unitGraph ha found fieldless, Option.getD_some,
      OrderedSet.mem_toList, OrderedSet.mem_ofList]
    exact List.mem_filter.2 ⟨unit, by simpa using hb⟩
  · exact OrderedMap.get?_isSome_iff.1 (Option.isSome_of_eq_some (get?_unitGraph hb found' fieldless'))

/-- A cycle in the unit graph of a component is reported as one of the two kinds. -/
theorem exists_unitCycleReport {a : String} (ha : a ∈ component)
    (cycle : TransGen (unitGraph t nullable component).Edge a a) :
    ∃ d, unitCycleReport t nullable component = some d
      ∧ (d.kind = .cyclicLexicalRule ∨ d.kind = .unitCycle) := by
  obtain ⟨found, search⟩ := Graph.exists_findCycle ha cycle
  refine ⟨_, by rw [unitCycleReport, search]; rfl, ?_⟩
  show cycleKind t found = _ ∨ cycleKind t found = _
  unfold cycleKind
  split
  · exact .inl rfl
  · exact .inr rfl

end Symbols

namespace Grammar

variable {g : Grammar}

/-- A rule without fields derives another one alone in one step. -/
def PassesAlone (g : Grammar) (a b : String) : Prop :=
  g.DerivesAlone a b ∧ ∀ d, g.get? a = some d → d.body.hasField = false

/-- What the table says about a rule that derives another one alone. -/
theorem PassesAlone.exists_info {a b : String} (h : g.PassesAlone a b) :
    ∃ info, (Symbols.declared g).get? a = some info ∧ info.body.hasField = false
      ∧ b ∈ info.body.units g.nullableNames.contains ∧ b ∈ info.refs := by
  obtain ⟨d, found, unit, ref⟩ := h.1.mem_units
  obtain ⟨index, declared⟩ := get?_declared_of_get? found
  exact ⟨_, declared, h.2 d found, unit, ref⟩

def Proceeds (g : Grammar) (a b : String) : Prop := g.PassesAlone a b ∧ ∃ c, g.PassesAlone b c

theorem proceeds_of_cycle {a : String} (cycle : TransGen g.PassesAlone a a) :
    TransGen g.Proceeds a a := by
  obtain ⟨b, first, -⟩ := TransGen.head'_iff.1 cycle
  suffices ∀ x, TransGen g.PassesAlone x a → TransGen g.Proceeds x a from this a cycle
  intro x path
  induction path using TransGen.head_induction_on with
  | single step => exact .single ⟨step, b, first⟩
  | head step rest ih =>
    obtain ⟨c, next, -⟩ := TransGen.head'_iff.1 rest
    exact .head ⟨step, c, next⟩ ih

theorem proceeds_le_edge : g.Proceeds ≤ (Symbols.referenceGraph (Symbols.declared g)).Edge := by
  rintro a b ⟨step, c, next⟩
  obtain ⟨info, found, -, -, ref⟩ := step.exists_info
  obtain ⟨info', found', -⟩ := next.exists_info
  exact Symbols.edge_referenceGraph found found' ref

theorem edge_unitGraph_of_proceeds {component : List String} {a b : String} (ha : a ∈ component)
    (hb : b ∈ component) (step : g.Proceeds a b) :
    (Symbols.unitGraph (Symbols.declared g) g.nullableNames component).Edge a b := by
  obtain ⟨pass, c, next⟩ := step
  obtain ⟨info, found, fieldless, unit, -⟩ := pass.exists_info
  obtain ⟨info', found', fieldless', -⟩ := next.exists_info
  exact Symbols.edge_unitGraph ha hb found found' fieldless fieldless' unit

/-- Rules without fields that derive each other alone in a cycle are reported. -/
theorem exists_cycle_report {a : String} (cycle : TransGen g.PassesAlone a a) :
    ∃ d ∈ (Symbols.resolve g).2, d.kind = .cyclicLexicalRule ∨ d.kind = .unitCycle := by
  have proceeds := proceeds_of_cycle cycle
  have references := TransGen.mono proceeds_le_edge _ _ proceeds
  obtain ⟨_, -, last⟩ := TransGen.tail'_iff.1 references
  obtain ⟨component, listed, ha, all⟩ := Graph.exists_component last.2
  -- the cycle stays within the component, whose unit graph has all of its steps
  obtain ⟨d, reported, kind⟩ := Symbols.exists_unitCycleReport ha
    (Graph.transGen_within proceeds_le_edge ha all
      (fun _ hx _ hy => edge_unitGraph_of_proceeds hx hy) proceeds .refl)
  have recursive := Graph.isRecursive_of_cycle ha all references
  refine ⟨d, ?_, kind⟩
  simp only [Symbols.resolve, List.mem_append, Symbols.unitCycleReports]
  exact .inl (.inl (.inr (List.mem_filterMap.2
    ⟨component, List.mem_filter.2 ⟨listed, recursive⟩, reported⟩)))

/-- A grammar whose names are resolved has no cycle of rules without fields that derive each other
alone; where there is one, it is reported. -/
theorem resolve_ne_ok_of_cycle {a : String} (cycle : TransGen g.PassesAlone a a) :
    (∃ d ∈ (Symbols.resolve g).2, d.kind = .cyclicLexicalRule ∨ d.kind = .unitCycle)
      ∧ ∀ settings r, g.resolve settings ≠ .ok r := by
  obtain ⟨d, reported, kind⟩ := exists_cycle_report cycle
  refine ⟨⟨d, reported, kind⟩, fun settings r resolved => ?_⟩
  rw [(resolve_eq_ok resolved).1] at reported
  cases reported

/-- Two rules that derive each other alone, one of them beside an optional mark. -/
def marks : Grammar where
  name := "marks"
  rules := [
    ⟨"item", .choice [.symbol "marked", .terminal (.literal "x")], false⟩,
    ⟨"marked", .seq [.symbol "item", .optional (.terminal (.literal "!"))], false⟩]
  extras := []
  precedences := []
  conflicts := []
  externals := []
  inlined := []
  supertypes := []
  word := none

theorem resolve_marks_ne_ok : TransGen marks.PassesAlone "item" "item"
    ∧ ∀ settings r, marks.resolve settings ≠ .ok r := by
  have first : marks.PassesAlone "item" "marked" := by
    refine ⟨⟨_, [], [], rfl, .inl rfl, by simp⟩, fun d found => ?_⟩
    obtain rfl := Option.some.inj found
    rfl
  have second : marks.PassesAlone "marked" "item" := by
    refine ⟨⟨_, [], [], rfl, ?_, by simp⟩, fun d found => ?_⟩
    · exact Rule.mem_seqForms_cons.2 ⟨[.symbol "item"], rfl, [],
        Rule.mem_seqForms_cons.2 ⟨[], .inr rfl, [], rfl, rfl⟩, rfl⟩
    · obtain rfl := Option.some.inj found
      rfl
  have cycle : TransGen marks.PassesAlone "item" "item" := .head first (.single second)
  exact ⟨cycle, (resolve_ne_ok_of_cycle cycle).2⟩

def inner : Grammar where
  name := "inner"
  rules := [⟨"a", .choice [.prec (.integer 1) .left (.field "inner" (.symbol "a")),
    .terminal (.literal "n")], false⟩]
  extras := []
  precedences := []
  conflicts := []
  externals := []
  inlined := []
  supertypes := []
  word := none

/-- Rules with fields are left out of the search, so a cycle through one of them is not found. -/
theorem exists_resolve_inner : TransGen inner.DerivesAlone "a" "a" ∧ (Symbols.resolve inner).2 = []
    ∧ (∃ r, inner.resolve .default = .ok r) ∧ ∃ c, inner.compile .default = .ok c := by
  have compiled : (inner.compile .default).toOption.isSome = true := by cbv
  have resolved : (inner.resolve .default).toOption.isSome = true := by cbv
  have none : (Symbols.resolve inner).2 = [] := by cbv
  have step : inner.DerivesAlone "a" "a" := ⟨_, [], [], rfl, .inl rfl, by simp⟩
  refine ⟨.single step, none, ?_, ?_⟩
  · cases h : inner.resolve .default with
    | ok r => exact ⟨r, rfl⟩
    | error f => simp [h, Except.toOption] at resolved
  · cases h : inner.compile .default with
    | ok c => exact ⟨c, rfl⟩
    | error f => simp [h, Except.toOption] at compiled

end Grammar

end Productions
