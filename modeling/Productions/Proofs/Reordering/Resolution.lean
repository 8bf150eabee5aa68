import Productions.Proofs.Derivation.Units
import Productions.Proofs.Ordered
import Productions.Proofs.Reordering.Tables
import Productions.Proofs.Stages

/-! Resolution of the names of a grammar whose rules stand in another order. The table has the same
entries, and names are reported for both orders or for neither. -/
namespace Productions

open Symbols

namespace Grammar

/-- The same grammar with its rules, all of different names, in another order. -/
structure Reorders (g g' : Grammar) : Prop where
  distinct : (g.rules.map Definition.name).Nodup
  order : g.rules.Perm g'.rules
  rest : g' = { g with rules := g'.rules }

namespace Reorders

variable {g g' : Grammar} (h : g.Reorders g')

include h

theorem symm : g'.Reorders g where
  distinct := (h.order.map Definition.name).nodup_iff.1 h.distinct
  order := h.order.symm
  rest := by rw [h.rest]

theorem extras : g'.extras = g.extras := by rw [h.rest]

theorem precedences : g'.precedences = g.precedences := by rw [h.rest]

theorem conflicts : g'.conflicts = g.conflicts := by rw [h.rest]

theorem externals : g'.externals = g.externals := by rw [h.rest]

theorem inlined : g'.inlined = g.inlined := by rw [h.rest]

theorem supertypes : g'.supertypes = g.supertypes := by rw [h.rest]

theorem word : g'.word = g.word := by rw [h.rest]

omit h in
theorem get?_eq_some_iff (distinct : (g.rules.map Definition.name).Nodup) {name : String}
    {d : Definition} : g.get? name = some d ↔ d ∈ g.rules ∧ d.name = name := by
  constructor
  · intro found
    exact ⟨List.mem_of_find?_eq_some found, by simpa using List.find?_some found⟩
  · rintro ⟨mem, named⟩
    have some : (g.get? name).isSome = true :=
      List.find?_isSome.2 ⟨d, mem, by simpa using named⟩
    obtain ⟨other, found⟩ := Option.isSome_iff_exists.1 some
    have named' : other.name = name := by simpa using List.find?_some found
    have same := List.inj_on_of_nodup_map distinct mem (List.mem_of_find?_eq_some found)
      (named.trans named'.symm)
    rw [same, found]

theorem get?_eq (name : String) : g.get? name = g'.get? name := by
  refine Option.ext fun d => ?_
  rw [get?_eq_some_iff h.distinct, get?_eq_some_iff h.symm.distinct, h.order.mem_iff]

end Reorders

end Grammar

namespace Symbols

variable {g g' : Grammar}

theorem exists_of_get?_declared {name : String} {info : SymbolInfo}
    (get : (declared g).get? name = some info) :
    ∃ d index, g.get? name = some d ∧ info = declare g index d := by
  rw [get?_declared, Option.map_eq_some_iff] at get
  obtain ⟨⟨d, index⟩, found, rfl⟩ := get
  exact ⟨d, index, by rw [get?_eq_find?_zipIdx, found]; rfl, rfl⟩

theorem mem_keys_declared {name : String} :
    name ∈ (declared g).rules.keys ↔ (g.get? name).isSome = true := by
  rw [← OrderedMap.get?_isSome_iff, ← SymbolTable.get?]
  constructor
  · intro known
    obtain ⟨info, get⟩ := Option.isSome_iff_exists.1 known
    obtain ⟨d, index, found, -⟩ := exists_of_get?_declared get
    rw [found]
    rfl
  · intro known
    obtain ⟨d, found⟩ := Option.isSome_iff_exists.1 known
    obtain ⟨index, get⟩ := Grammar.get?_declared_of_get? found
    rw [get]
    rfl

theorem declared_reordered (h : g.Reorders g') : (declared g).Reordered (declared g') where
  keys := (List.perm_ext_iff_of_nodup (OrderedMap.nodup_keys _) (OrderedMap.nodup_keys _)).2
    fun name => by rw [mem_keys_declared, mem_keys_declared, h.get?_eq]
  get name info get := by
    obtain ⟨d, index, found, rfl⟩ := exists_of_get?_declared get
    rw [h.get?_eq] at found
    obtain ⟨index', get'⟩ := Grammar.get?_declared_of_get? found
    refine ⟨index', get'.trans ?_⟩
    simp only [declare, h.inlined]
  externals := by rw [declared, declared, h.externals]

theorem kindOf_congr {lexical lexical' : OrderedSet String}
    (same : lexical.contains = lexical'.contains) (supertypes : List String) (info : SymbolInfo) :
    kindOf supertypes lexical info = kindOf supertypes lexical' info := by
  simp only [kindOf, same]

theorem resolve_reordered (h : g.Reorders g') : (resolve g).1.Reordered (resolve g').1 where
  keys := by
    simp only [resolve, classify, OrderedMap.keys_mapValues]
    exact (declared_reordered h).keys
  get name info get := by
    have tables := declared_reordered h
    rw [get?_resolve] at get ⊢
    obtain ⟨first, declared, rfl⟩ := Option.map_eq_some_iff.1 get
    obtain ⟨index, declared'⟩ := tables.get name first declared
    refine ⟨index, Option.map_eq_some_iff.2 ⟨_, declared', ?_⟩⟩
    rw [h.supertypes, ← tables.nullable_contains_eq,
      ← kindOf_congr (lexicalRules_contains_eq tables)]
    rfl
  externals := (declared_reordered h).externals

theorem unresolvedIn_eq_nil_iff {known : String → Bool} {place : String} {owner : Option String}
    {names : List String} :
    unresolvedIn known place owner names = [] ↔ ∀ name ∈ names, known name = true := by
  simp [unresolvedIn]

theorem duplicateReports_eq_nil (distinct : (g.rules.map Definition.name).Nodup) :
    duplicateReports g (declared g) = [] := by
  rw [duplicateReports, List.filterMap_eq_nil_iff]
  rintro ⟨d, place⟩ mem
  have listed : g.rules[place]? = some d := List.mem_zipIdx_iff_getElem?.1 mem
  rw [get?_declared]
  cases found : g.rules.zipIdx.find? fun e => e.1.name == d.name with
  | none => rfl
  | some first =>
    have listed' : g.rules[first.2]? = some first.1 :=
      List.mem_zipIdx_iff_getElem?.1 (List.mem_of_find?_eq_some found)
    have named : first.1.name = d.name := by simpa using List.find?_some found
    exact if_pos (place_eq_of_key_eq distinct listed' listed named)

theorem referenceReports_reordered (h : g.Reorders g')
    (none : referenceReports g (declared g) = []) : referenceReports g' (declared g') = [] := by
  have tables := declared_reordered h
  simp only [referenceReports, List.append_eq_nil_iff, List.flatMap_eq_nil_iff,
    unresolvedIn_eq_nil_iff] at none ⊢
  rw [h.extras, h.conflicts, h.inlined, h.supertypes, h.precedences, h.word, ← tables.contains_eq,
    ← tables.externals]
  obtain ⟨⟨⟨⟨⟨⟨rules, extras⟩, conflicts⟩, inlined⟩, supertypes⟩, precedences⟩, word⟩ := none
  refine ⟨⟨⟨⟨⟨⟨fun info mem => ?_, extras⟩, conflicts⟩, inlined⟩, supertypes⟩, precedences⟩, word⟩
  obtain ⟨index, mem'⟩ := tables.symm.mem_infos mem
  exact rules { info with index } mem'

theorem referring_declared (g : Grammar) : Referring (declared g) := by
  intro name info get
  obtain ⟨d, index, -, rfl⟩ := exists_of_get?_declared get
  rfl

theorem unitCycleReports_reordered (h : g.Reorders g')
    (none : unitCycleReports (declared g) (referenceGraph (declared g))
      (Rule.nullableNames (declared g).bodies) = []) :
    unitCycleReports (declared g') (referenceGraph (declared g'))
      (Rule.nullableNames (declared g').bodies) = [] := by
  rw [unitCycleReports_eq_nil_iff (referring_declared _)] at none ⊢
  exact fun a cycle => none a
    (Relation.TransGen.mono (fun _ _ => UnitStep.reorder (declared_reordered h).symm) _ _ cycle)

theorem supertypeReports_reordered (h : g.Reorders g')
    (none : supertypeReports g (resolve g).1 = []) :
    supertypeReports g' (resolve g').1 = [] := by
  rw [supertypeReports, List.filterMap_eq_nil_iff] at none ⊢
  rw [h.supertypes]
  intro name mem
  have quiet := none name mem
  obtain ⟨-, get'⟩ | ⟨info, index, get, get'⟩ := (resolve_reordered h).get?_cases name
  · rw [get']
  · rw [get] at quiet
    rw [get']
    by_cases choice : info.body.isSymbolChoice = true
    · exact if_pos choice
    · simp [choice] at quiet

theorem wordReports_reordered (h : g.Reorders g') (none : wordReports g (resolve g).1 = []) :
    wordReports g' (resolve g').1 = [] := by
  rw [wordReports, List.filterMap_eq_nil_iff] at none ⊢
  rw [h.word]
  intro name mem
  have quiet := none name mem
  obtain ⟨-, get'⟩ | ⟨info, index, get, get'⟩ := (resolve_reordered h).get?_cases name
  · rw [get']
  · rw [get] at quiet
    rw [get']
    by_cases token : info.kind = .token
    · exact if_pos token
    · simp [token] at quiet

/-- Names that are resolved without reports are so in every order. -/
theorem quiet_resolve_reordered (h : g.Reorders g') (none : (resolve g).2 = []) :
    (resolve g').2 = [] := by
  simp only [resolve, List.append_eq_nil_iff] at none ⊢
  obtain ⟨⟨⟨⟨-, references⟩, cycles⟩, supertypes⟩, word⟩ := none
  exact ⟨⟨⟨⟨duplicateReports_eq_nil h.symm.distinct, referenceReports_reordered h references⟩,
    unitCycleReports_reordered h cycles⟩, supertypeReports_reordered h supertypes⟩,
    wordReports_reordered h word⟩

end Symbols

namespace Grammar

variable {g g' : Grammar} {levels : Option Levels} {start : String}

theorem startRule_reordered (h : g.Reorders g') (name : String)
    (first : startRule g ⟨some name, levels⟩ g.table = .ok start) :
    startRule g' ⟨some name, levels⟩ g'.table = .ok start := by
  simp only [startRule] at first ⊢
  rwa [h.inlined, ← (resolve_reordered h).contains_eq]

end Grammar

end Productions
