import Productions.Proofs.Fixpoint
import Productions.Proofs.Graph.Cycle
import Productions.Proofs.Graph.Order
import Productions.Proofs.Nullability
import Productions.Proofs.Symbols.UnitCycles

/-! Tables in another order. What is said of the names of a grammar does not depend on the order of
its rules: which names are nullable, which rules are lexical, which derive each other alone in a
cycle, and so how each rule is classified. -/
namespace Productions

open Relation

theorem OrderedSet.leastClosed_subset {κ β : Type} [DecidableEq κ]
    {holds : (κ → Bool) → β → Bool}
    (mono : ∀ f f' b, (∀ k, f k = true → f' k = true) → holds f b = true → holds f' b = true)
    {bodies bodies' : List (κ × β)} (sub : ∀ e ∈ bodies, e ∈ bodies') :
    ∀ k ∈ leastClosed holds bodies, k ∈ leastClosed holds bodies' := by
  refine leastClosed_induction bodies (p := fun k => k ∈ leastClosed holds bodies') ?_
  intro found known e he held
  refine mem_leastClosed_of_holds bodies' e (sub e he) (mono _ _ _ (fun k hk => ?_) held)
  exact contains_iff.2 (known k (contains_iff.1 hk))

namespace Rule

variable {isNullable : String → Bool} {name : String}

mutual

theorem mem_occurrences_of_unit : (r : Rule) → name ∈ r.unitOccurrences isNullable →
    name ∈ r.occurrences
  | terminal _, h | symbol _, h => h
  | seq members, h => mem_occurrences_of_unitMembers members _ h
  | choice members, h => mem_occurrences_of_unitAlternatives members h
  | repeated content _, h | optional content, h | token content _, h | prec _ _ content, h
  | aliased content _ _, h | field _ content, h => mem_occurrences_of_unit content h

theorem mem_occurrences_of_unitMembers : (rules : List Rule) → (before : Bool) →
    name ∈ unitMembers isNullable before rules → name ∈ occurrencesAll rules
  | [], _, h => h
  | r :: rs, before, h => by
    rw [occurrencesAll, List.mem_append]
    rw [unitMembers, List.mem_append] at h
    refine h.imp (fun h => ?_) (mem_occurrences_of_unitMembers rs _)
    split at h
    · exact mem_occurrences_of_unit r h
    · cases h

theorem mem_occurrences_of_unitAlternatives : (rules : List Rule) →
    name ∈ unitAlternatives isNullable rules → name ∈ occurrencesAll rules
  | [], h => h
  | r :: rs, h => by
    rw [occurrencesAll, List.mem_append]
    rw [unitAlternatives, List.mem_append] at h
    exact h.imp (mem_occurrences_of_unit r) (mem_occurrences_of_unitAlternatives rs)

end

/-- A name that a rule can derive alone is one that it refers to. -/
theorem mem_symbols_of_mem_units {r : Rule} (h : name ∈ r.units isNullable) : name ∈ r.symbols :=
  OrderedSet.mem_ofList.2 (mem_occurrences_of_unit r (OrderedSet.mem_ofList.1 h))

end Rule

/-- Tables with the same entries, in any order and numbered in any way. -/
structure SymbolTable.Reordered (t u : SymbolTable) : Prop where
  keys : t.rules.keys.Perm u.rules.keys
  get : ∀ name info, t.get? name = some info → ∃ index, u.get? name = some { info with index }
  externals : t.externals = u.externals

namespace SymbolTable.Reordered

variable {t u : SymbolTable} (h : t.Reordered u)

theorem get?_eq_none {t : SymbolTable} {name : String} :
    t.get? name = none ↔ name ∉ t.rules.keys := OrderedMap.get?_eq_none_iff

include h

theorem get?_cases (name : String) : (t.get? name = none ∧ u.get? name = none)
    ∨ ∃ info index, t.get? name = some info ∧ u.get? name = some { info with index } := by
  cases found : t.get? name with
  | none =>
    refine .inl ⟨rfl, get?_eq_none.2 fun known => ?_⟩
    exact get?_eq_none.1 found (h.keys.mem_iff.2 known)
  | some info =>
    obtain ⟨index, found'⟩ := h.get name info found
    exact .inr ⟨info, index, rfl, found'⟩

theorem symm : u.Reordered t where
  keys := h.keys.symm
  get name info found := by
    obtain ⟨-, none⟩ | ⟨first, index, get, get'⟩ := h.get?_cases name
    · rw [none] at found
      cases found
    · rw [get'] at found
      cases found
      exact ⟨first.index, get⟩
  externals := h.externals.symm

theorem contains_eq : t.contains = u.contains := by
  funext name
  rw [Bool.eq_iff_iff, contains, contains, OrderedMap.contains_iff, OrderedMap.contains_iff]
  exact h.keys.mem_iff

theorem kind?_eq : t.kind? = u.kind? := by
  funext name
  obtain ⟨found, found'⟩ | ⟨info, index, found, found'⟩ := h.get?_cases name
  · rw [kind?, kind?, found, found']
  · rw [kind?, kind?, found, found']
    rfl

theorem isInlined_eq : t.isInlined = u.isInlined := by
  funext name
  rw [isInlined, isInlined, h.kind?_eq]

theorem mem_infos {info : SymbolInfo} (mem : info ∈ t.infos) :
    ∃ index, { info with index } ∈ u.infos := by
  obtain ⟨name, found⟩ := SymbolTable.mem_infos.1 mem
  obtain ⟨index, found'⟩ := h.get name info found
  exact ⟨index, SymbolTable.mem_infos.2 ⟨name, found'⟩⟩

theorem nullableNames_subset :
    ∀ k ∈ Rule.nullableNames t.bodies, k ∈ Rule.nullableNames u.bodies := by
  refine OrderedSet.leastClosed_subset (fun f f' r mono => Rule.nullable_mono mono r) ?_
  rintro ⟨name, body⟩ mem
  have found : t.bodies.get? name = some body := OrderedMap.get?_eq_some_iff.2 mem
  refine OrderedMap.get?_eq_some_iff.1 ?_
  rw [bodies, OrderedMap.get?_mapValues] at found ⊢
  obtain ⟨info, get, rfl⟩ := Option.map_eq_some_iff.1 found
  obtain ⟨index, get'⟩ := h.get name info get
  exact Option.map_eq_some_iff.2 ⟨_, get', rfl⟩

theorem nullable_contains_eq :
    (Rule.nullableNames t.bodies).contains = (Rule.nullableNames u.bodies).contains := by
  funext k
  rw [Bool.eq_iff_iff, OrderedSet.contains_iff, OrderedSet.contains_iff]
  exact ⟨h.nullableNames_subset k, h.symm.nullableNames_subset k⟩

end SymbolTable.Reordered

namespace Symbols

variable {t u : SymbolTable}

theorem edge_referenceGraph_iff {a b : String} : (referenceGraph t).Edge a b
    ↔ ∃ info, t.get? a = some info ∧ b ∈ info.refs ∧ t.contains b = true := by
  constructor
  · rintro ⟨next, inside⟩
    cases found : t.get? a with
    | none =>
      rw [Graph.successors, OrderedMap.getD, referenceGraph, OrderedMap.get?_mapValues,
        show t.rules.get? a = none from found] at next
      simp at next
    | some info =>
      rw [successors_referenceGraph found, OrderedSet.mem_toList, OrderedSet.mem_ofList,
        List.mem_filter] at next
      exact ⟨info, rfl, next⟩
  · rintro ⟨info, found, ref, known⟩
    obtain ⟨info', found'⟩ := SymbolTable.contains_iff.1 known
    exact edge_referenceGraph found found' ref

theorem edge_referenceGraph_eq (h : t.Reordered u) :
    (referenceGraph t).Edge = (referenceGraph u).Edge := by
  funext a b
  refine propext ?_
  rw [edge_referenceGraph_iff, edge_referenceGraph_iff, h.contains_eq]
  obtain ⟨found, found'⟩ | ⟨info, index, found, found'⟩ := h.get?_cases a
  · rw [found, found']
  · simp [found, found']

/-- A lexical rule: one shaped like a token, or one without fields that does not refer back to
itself and refers to lexical rules and external tokens only. -/
inductive IsLexical (t : SymbolTable) : String → Prop where
  | shaped {name} (token : isTokenRule t name = true) : IsLexical t name
  | plain {name info} (get : t.get? name = some info) (fieldless : info.body.hasField = false)
      (apart : ¬ TransGen (referenceGraph t).Edge name name)
      (refs : ∀ ref ∈ info.refs, t.externals.contains ref = false → IsLexical t ref) :
      IsLexical t name

theorem isTokenRule_eq_of_reordered (h : t.Reordered u) : isTokenRule t = isTokenRule u := by
  funext name
  rw [isTokenRule, isTokenRule]
  obtain ⟨found, found'⟩ | ⟨info, index, found, found'⟩ := h.get?_cases name
  · rw [found, found']
  · rw [found, found', Option.any_some, Option.any_some]

theorem IsLexical.reorder (h : t.Reordered u) {name : String} (lexical : IsLexical t name) :
    IsLexical u name := by
  induction lexical with
  | shaped token => exact .shaped (isTokenRule_eq_of_reordered h ▸ token)
  | plain get fieldless apart _ ih =>
    obtain ⟨index, get'⟩ := h.get _ _ get
    refine .plain get' fieldless (edge_referenceGraph_eq h ▸ apart) fun ref mem inside => ?_
    exact ih ref mem (h.externals ▸ inside)

theorem IsLexical.contains {name : String} (lexical : IsLexical t name) :
    t.contains name = true := by
  cases lexical with
  | shaped token =>
    rw [isTokenRule, Option.any_eq_true] at token
    obtain ⟨info, found, -⟩ := token
    exact SymbolTable.contains_iff.2 ⟨info, found⟩
  | plain get _ _ _ => exact SymbolTable.contains_iff.2 ⟨_, get⟩

/-- In a recursive component only tokens are lexical. -/
theorem isLexical_iff_of_cycle {name : String}
    (cycle : TransGen (referenceGraph t).Edge name name) :
    IsLexical t name ↔ isTokenRule t name = true := by
  refine ⟨fun lexical => ?_, .shaped⟩
  cases lexical with
  | shaped token => exact token
  | plain _ _ apart _ => exact absurd cycle apart

/-- Outside every cycle a rule is lexical by the lexical rules it refers to. -/
theorem isLexical_iff_of_apart {name : String} {lexical : OrderedSet String}
    (apart : ¬ TransGen (referenceGraph t).Edge name name)
    (right : ∀ ref ∈ lexical, IsLexical t ref)
    (all : ∀ ref, (referenceGraph t).Edge name ref → IsLexical t ref → ref ∈ lexical) :
    IsLexical t name ↔ isLexicalRule t lexical name = true := by
  simp only [isLexicalRule, Option.any_eq_true, Bool.or_eq_true, Bool.and_eq_true,
    Bool.not_eq_true', List.all_eq_true, OrderedSet.contains_iff]
  constructor
  · intro lexical
    cases lexical with
    | shaped token =>
      rw [isTokenRule, Option.any_eq_true] at token
      obtain ⟨info, found, token⟩ := token
      exact ⟨info, found, .inl token⟩
    | @plain _ info get fieldless _ refs =>
      refine ⟨info, get, .inr ⟨fieldless, fun ref mem => ?_⟩⟩
      by_cases outside : ref ∈ t.externals
      · exact .inr outside
      · have inner := refs ref mem (by simpa [OrderedSet.contains] using outside)
        exact .inl (all ref (edge_referenceGraph_iff.2 ⟨info, get, mem, inner.contains⟩) inner)
  · rintro ⟨info, get, token | ⟨fieldless, refs⟩⟩
    · exact .shaped (by rw [isTokenRule, get, Option.any_some, token])
    · refine .plain get fieldless apart fun ref mem outside => ?_
      refine right ref ((refs ref mem).resolve_right fun external => ?_)
      rw [OrderedSet.contains_iff.2 external] at outside
      cases outside

/-- Each component adds its lexical rules, given those of the components it leads to. -/
theorem mem_foldl_addLexical {seen : String → Prop} {components : List (List String)}
    (stacked : Graph.Stacked (referenceGraph t) seen components)
    (each : ∀ c ∈ components, c ∈ (referenceGraph t).components) {lexical : OrderedSet String}
    (right : ∀ name, name ∈ lexical ↔ seen name ∧ IsLexical t name) (name : String) :
    name ∈ components.foldl (addLexical t (referenceGraph t)) lexical
      ↔ (seen name ∨ ∃ c ∈ components, name ∈ c) ∧ IsLexical t name := by
  induction stacked generalizing lexical with
  | nil => simp [right]
  | @cons seen c components closed _ ih =>
    have listed := each c (by simp)
    have step : ∀ name, name ∈ addLexical t (referenceGraph t) lexical c
        ↔ (name ∈ c ∨ seen name) ∧ IsLexical t name := by
      intro name
      rw [addLexical]
      split <;> rename_i recursive
      · rw [OrderedSet.mem_insertAll, List.mem_filter, right]
        have inner (mem : name ∈ c) :=
          isLexical_iff_of_cycle (Graph.cycle_of_isRecursive listed recursive mem)
        constructor
        · rintro (⟨old, lexical⟩ | ⟨mem, token⟩)
          · exact ⟨.inr old, lexical⟩
          · exact ⟨.inl mem, .shaped token⟩
        · rintro ⟨mem | old, lexical⟩
          · exact .inr ⟨mem, (inner mem).1 lexical⟩
          · exact .inl ⟨old, lexical⟩
      · have apart {a : String} (mem : a ∈ c) : ¬ TransGen (referenceGraph t).Edge a a :=
          fun cycle => recursive (Graph.isRecursive_of_cycle mem
            (fun b hb both => (Graph.mem_component_iff listed mem).2.2 ⟨hb, both⟩) cycle)
        have inner (mem : name ∈ c) : IsLexical t name ↔ isLexicalRule t lexical name = true := by
          refine isLexical_iff_of_apart (apart mem) (fun ref hr => ((right ref).1 hr).2)
            fun ref edge lexical => (right ref).2 ⟨?_, lexical⟩
          refine (closed name mem ref edge).resolve_left fun here => apart mem ?_
          obtain ⟨-, -, back⟩ := (Graph.mem_component_iff listed mem).2.1 here
          exact TransGen.head'_iff.2 ⟨ref, edge, back⟩
        rw [OrderedSet.mem_insertAll, List.mem_filter, right]
        constructor
        · rintro (⟨old, lexical⟩ | ⟨mem, rule⟩)
          · exact ⟨.inr old, lexical⟩
          · exact ⟨.inl mem, (inner mem).2 rule⟩
        · rintro ⟨mem | old, lexical⟩
          · exact .inr ⟨mem, (inner mem).1 lexical⟩
          · exact .inl ⟨old, lexical⟩
    rw [List.foldl_cons, ih (fun d hd => each d (by simp [hd])) step]
    simp only [List.mem_cons, exists_eq_or_imp]
    tauto

theorem mem_lexicalRules_iff {name : String} :
    name ∈ lexicalRules t (referenceGraph t) ↔ IsLexical t name := by
  have start (name : String) : name ∈ (∅ : OrderedSet String) ↔ False ∧ IsLexical t name :=
    iff_of_false (by rw [← OrderedSet.mem_toList]; simp) And.left
  rw [lexicalRules, mem_foldl_addLexical (Graph.stacked_components _) (fun _ hc => hc) start]
  refine ⟨And.right, fun lexical => ⟨.inr ?_, lexical⟩⟩
  obtain ⟨info, found⟩ := SymbolTable.contains_iff.1 lexical.contains
  obtain ⟨c, listed, mem, -⟩ := Graph.exists_component (mem_keys_referenceGraph found)
  exact ⟨c, listed, mem⟩

theorem lexicalRules_contains_eq (h : t.Reordered u) :
    (lexicalRules t (referenceGraph t)).contains
      = (lexicalRules u (referenceGraph u)).contains := by
  funext name
  rw [Bool.eq_iff_iff, OrderedSet.contains_iff, OrderedSet.contains_iff, mem_lexicalRules_iff,
    mem_lexicalRules_iff]
  exact ⟨.reorder h, .reorder h.symm⟩

def UnitStep (t : SymbolTable) (a b : String) : Prop :=
  ∃ info info', t.get? a = some info ∧ t.get? b = some info' ∧ info.body.hasField = false
    ∧ info'.body.hasField = false ∧ b ∈ info.body.units (Rule.nullableNames t.bodies).contains

theorem UnitStep.reorder (h : t.Reordered u) {a b : String} (step : UnitStep t a b) :
    UnitStep u a b := by
  obtain ⟨info, info', get, get', fieldless, fieldless', unit⟩ := step
  obtain ⟨i, found⟩ := h.get a info get
  obtain ⟨j, found'⟩ := h.get b info' get'
  exact ⟨_, _, found, found', fieldless, fieldless', h.nullable_contains_eq ▸ unit⟩

/-- A node of the unit graph of a component: a rule without fields, with the rules of the component
that it can be alone. -/
def UnitNode (t : SymbolTable) (nullable : OrderedSet String) (component : List String)
    (a : String) (next : OrderedSet String) : Prop :=
  ∃ info, t.get? a = some info ∧ info.body.hasField = false ∧ next = OrderedSet.ofList
    ((info.body.units nullable.contains).toList.filter component.contains)

theorem unitNode_foldl {nullable : OrderedSet String} {component names : List String}
    {m : Graph String}
    (known : ∀ a next, m.get? a = some next → UnitNode t nullable component a next) :
    ∀ a next, (names.foldl (fun m name =>
      match t.get? name with
      | none => m
      | some info =>
        if info.body.hasField then m
        else m.insert name (OrderedSet.ofList
          ((info.body.units nullable.contains).toList.filter component.contains))) m).get? a
      = some next → UnitNode t nullable component a next := by
  induction names generalizing m with
  | nil => exact known
  | cons name names ih =>
    rw [List.foldl_cons]
    refine ih fun a next entry => ?_
    split at entry
    · exact known a next entry
    · rename_i info found
      split at entry
      · exact known a next entry
      · rename_i fieldless
        rw [OrderedMap.get?_insert] at entry
        split at entry
        · rename_i same
          cases entry
          exact ⟨info, same ▸ found, by simpa using fieldless, rfl⟩
        · exact known a next entry

theorem unitNode_of_get? {nullable : OrderedSet String} {component : List String} {a : String}
    {next : OrderedSet String} (h : (unitGraph t nullable component).get? a = some next) :
    UnitNode t nullable component a next :=
  unitNode_foldl (m := ∅) (fun b next entry => by cases entry) a next h

theorem edge_unitGraph_le {component : List String} {a b : String}
    (edge : (unitGraph t (Rule.nullableNames t.bodies) component).Edge a b) : UnitStep t a b := by
  obtain ⟨next, inside⟩ := edge
  obtain ⟨succ, found⟩ := Option.isSome_iff_exists.1 (OrderedMap.get?_isSome_iff.2 inside)
  obtain ⟨info', get', fieldless', -⟩ := unitNode_of_get? found
  cases start : (unitGraph t (Rule.nullableNames t.bodies) component).get? a with
  | none =>
    rw [Graph.successors, OrderedMap.getD, start] at next
    simp at next
  | some succ =>
    obtain ⟨info, get, fieldless, rfl⟩ := unitNode_of_get? start
    rw [Graph.successors, OrderedMap.getD, start, Option.getD_some, OrderedSet.mem_toList,
      OrderedSet.mem_ofList, List.mem_filter] at next
    exact ⟨info, info', get, get', fieldless, fieldless', next.1⟩

def Referring (t : SymbolTable) : Prop :=
  ∀ name info, t.get? name = some info → info.refs = info.body.symbols

theorem unitStep_le_edge (referring : Referring t) : UnitStep t ≤ (referenceGraph t).Edge := by
  rintro a b ⟨info, info', get, get', -, -, unit⟩
  refine edge_referenceGraph get get' ?_
  rw [referring a info get]
  exact Rule.mem_symbols_of_mem_units unit

theorem edge_unitGraph_of_unitStep {component : List String} {a b : String} (ha : a ∈ component)
    (hb : b ∈ component) (step : UnitStep t a b) :
    (unitGraph t (Rule.nullableNames t.bodies) component).Edge a b := by
  obtain ⟨info, info', get, get', fieldless, fieldless', unit⟩ := step
  exact edge_unitGraph ha hb get get' fieldless fieldless' unit

/-- Unit cycles are reported where rules without fields can be each other alone in a cycle. -/
theorem unitCycleReports_eq_nil_iff (referring : Referring t) :
    unitCycleReports t (referenceGraph t) (Rule.nullableNames t.bodies) = []
      ↔ ∀ a, ¬ TransGen (UnitStep t) a a := by
  rw [unitCycleReports, List.filterMap_eq_nil_iff]
  constructor
  · intro none a cycle
    have references := TransGen.mono (unitStep_le_edge referring) _ _ cycle
    obtain ⟨_, -, last⟩ := TransGen.tail'_iff.1 references
    obtain ⟨component, listed, ha, all⟩ := Graph.exists_component last.2
    obtain ⟨d, reported, -⟩ := exists_unitCycleReport ha
      (Graph.transGen_within (unitStep_le_edge referring) ha all
        (fun _ hx _ hy => edge_unitGraph_of_unitStep hx hy) cycle .refl)
    rw [none component (List.mem_filter.2
      ⟨listed, Graph.isRecursive_of_cycle ha all references⟩)] at reported
    cases reported
  · intro none component _
    rw [unitCycleReport, Option.map_eq_none_iff]
    cases search : Graph.findCycle _ component with
    | none => rfl
    | some found =>
      obtain ⟨a, cycle⟩ := Graph.exists_cycle_of_findCycle search
      exact absurd (TransGen.mono (fun _ _ => edge_unitGraph_le) _ _ cycle) (none a)

end Symbols

end Productions
