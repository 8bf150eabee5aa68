import Productions.Proofs.Renumbering.Expr
import Productions.Proofs.Reordering.NormalForm
import Productions.Proofs.Validity

/-! Compilation of a grammar whose rules stand in another order. Each stage succeeds for both orders
or fails for both, and what is compiled is the same but for the numbers of rules and tokens. -/
namespace Productions

open Symbols NormalForm

/-- Both succeed, with related results, or both fail at the same stage. -/
inductive SameOutcome {α β : Type} (R : α → β → Prop) : Except Failure α → Except Failure β → Prop
  | ok {a : α} {b : β} (related : R a b) : SameOutcome R (.ok a) (.ok b)
  | error {f f' : Failure} (stage : f.stage = f'.stage) : SameOutcome R (.error f) (.error f')

namespace SameOutcome

variable {α α' β β' : Type} {R : α → α' → Prop} {S : β → β' → Prop}

theorem bind {x : Except Failure α} {x' : Except Failure α'} (h : SameOutcome R x x')
    {next : α → Except Failure β} {next' : α' → Except Failure β'}
    (each : ∀ a a', R a a' → SameOutcome S (next a) (next' a')) :
    SameOutcome S (x >>= next) (x' >>= next') := by
  cases h with
  | ok related => exact each _ _ related
  | error stage => exact .error stage

theorem mono {S : α → α' → Prop} {x : Except Failure α} {x' : Except Failure α'}
    (h : SameOutcome R x x') (weaker : ∀ a a', R a a' → S a a') : SameOutcome S x x' := by
  cases h with
  | ok related => exact .ok (weaker _ _ related)
  | error stage => exact .error stage

theorem endStage {stage : Stage} {reports reports' : List Diagnostic} {a : α} {a' : α'}
    (there : Diagnostic.hasErrors reports = false → Diagnostic.hasErrors reports' = false)
    (back : Diagnostic.hasErrors reports' = false → Diagnostic.hasErrors reports = false)
    (related : Diagnostic.hasErrors reports = false → R a a') :
    SameOutcome R (endStage stage reports a) (endStage stage reports' a') := by
  cases errors : Diagnostic.hasErrors reports with
  | false =>
    rw [endStage_of_quiet errors, endStage_of_quiet (there errors)]
    exact .ok (related errors)
  | true =>
    have errors' : Diagnostic.hasErrors reports' = true := by
      rw [← Bool.not_eq_false]
      exact fun quiet => Bool.false_ne_true ((back quiet).symm.trans errors)
    rw [Productions.endStage, Productions.endStage, if_pos errors, if_pos errors']
    exact .error rfl

end SameOutcome

structure Variable.Agree (v v' : Variable) : Prop where
  kind : v.kind = v'.kind
  inlined : ∀ k, k ∈ v.inlined ↔ k ∈ v'.inlined
  fields : OrderedMap.Related FieldInfo.Agree v.fields v'.fields

/-- The rules of each name agree, and their tables are the same up to the number of the rule. -/
structure CompiledGrammar.Agree (c c' : CompiledGrammar) : Prop where
  vars : ∀ name, Option.Rel Variable.Agree (c.findVariable? name) (c'.findVariable? name)
  tables : ∀ name, Option.Rel (fun d d' => d' = { d with id := d'.id }) (c.table? name)
    (c'.table? name)

namespace NormalForm.Renumbers

variable {ρ ρ' : Renumbering} {m m' : NormalForm} (h : Renumbers ρ ρ' m m')

include h

theorem eq_of_rule_eq {d e : Disambiguation} (memD : d ∈ Disambiguation.tables m)
    (memE : e ∈ Disambiguation.tables m) (same : d.rule = e.rule) : d = e := by
  obtain ⟨i, v, lookup, -, rfl⟩ := Disambiguation.mem_tables.1 memD
  obtain ⟨j, w, lookup', -, rfl⟩ := Disambiguation.mem_tables.1 memE
  obtain rfl : i = j := place_eq_of_key_eq h.distinct lookup lookup' same
  rw [lookup] at lookup'
  cases lookup'
  rfl

/-- What is compiled from normal forms that differ in their numbers agrees. -/
theorem agree (levels levels' : Levels) (conflicts conflicts' : Conflicts)
    (warnings warnings' : List Diagnostic) : CompiledGrammar.Agree
      (.ofNormalForm m levels (Disambiguation.tables m) conflicts warnings)
      (.ofNormalForm m' levels' (Disambiguation.tables m') conflicts' warnings') where
  vars := by
    have matching {ρ : Renumbering} {m m' : NormalForm} (found : Embeds ρ m m') :
        ∀ w ∈ m.vars.map (fun v => { v with fields := m.fieldsOf v.body }),
          ∃ w' ∈ m'.vars.map (fun v => { v with fields := m'.fieldsOf v.body }),
            w'.name = w.name ∧ w.Agree w' := by
      intro w mem
      obtain ⟨v, listed, rfl⟩ := List.mem_map.1 mem
      obtain ⟨i, lookup⟩ := List.getElem?_of_mem listed
      obtain ⟨v', lookup', same⟩ := found.vars i v lookup
      refine ⟨_, List.mem_map_of_mem (List.mem_of_getElem? lookup'), same.name, same.kind.symm,
        fun k => (same.inlined k).symm, ?_⟩
      simp only [same.body]
      exact fieldsOf_renumber m m' v.body
    refine rel_find? (matching h.there) (fun w mem => ?_) ?_
    · obtain ⟨w', mem', name, -⟩ := matching h.back w mem
      exact ⟨w', mem', name⟩
    · refine fun w mem w' mem' => List.inj_on_of_nodup_map ?_ mem mem'
      rw [CompiledGrammar.ofNormalForm, List.map_map]
      exact h.distinct'
  tables := rel_find? (fun _ mem => ⟨_, h.mem_tables mem, rfl, rfl⟩)
    (fun _ mem => ⟨_, h.symm.mem_tables mem, rfl⟩) fun _ mem _ mem' => h.symm.eq_of_rule_eq mem mem'

end NormalForm.Renumbers

namespace Grammar.Reorders

variable {g g' : Grammar} (h : g.Reorders g') (start : String) (levels : Option Levels)

include h

theorem resolve_alike : SameOutcome
    (fun r r' => (Symbols.resolve g).2 = [] ∧ ∃ first,
      r = ⟨g, ⟨some start, levels⟩, g.table, first, []⟩
      ∧ r' = ⟨g', ⟨some start, levels⟩, g'.table, first, []⟩)
    (g.resolve ⟨some start, levels⟩) (g'.resolve ⟨some start, levels⟩) := by
  have quiet {g g' : Grammar} (h : g.Reorders g')
      (none : Diagnostic.hasErrors (Symbols.resolve g).2 = false) :
      (Symbols.resolve g).2 = [] ∧ (Symbols.resolve g').2 = [] :=
    have silent := Diagnostic.eq_nil_of_hasErrors (fun _ hd => isError_of_mem_resolve hd) none
    ⟨silent, quiet_resolve_reordered h silent⟩
  rw [Grammar.resolve, Grammar.resolve]
  dsimp only
  cases first : startRule g ⟨some start, levels⟩ g.table with
  | ok name =>
    rw [startRule_reordered h start first]
    refine .endStage (fun none => ?_) (fun none => ?_) fun none => ?_
    · rw [(quiet h none).2]
      rfl
    · rw [(quiet h.symm none).2]
      rfl
    · obtain ⟨silent, silent'⟩ := quiet h none
      exact ⟨silent, name, by rw [silent], by rw [silent']⟩
  | error report =>
    cases first' : startRule g' ⟨some start, levels⟩ g'.table with
    | ok name =>
      have back := startRule_reordered h.symm start first'
      rw [first] at back
      cases back
    | error report' => exact .error rfl

theorem normalize_alike (names : (Symbols.resolve g).2 = []) (settings : Settings)
    (first : String) : SameOutcome
      (fun n n' => Clean g first ∧ n = ⟨settings, g.normalForm first, first, []⟩
        ∧ n' = ⟨settings, g'.normalForm first, first, []⟩)
      (Resolved.normalize ⟨g, settings, g.table, first, []⟩)
      (Resolved.normalize ⟨g', settings, g'.table, first, []⟩) := by
  have quiet {g g' : Grammar} (h : g.Reorders g')
      (none : Diagnostic.hasErrors (ofGrammar g g.table first).2 = false) :
      (ofGrammar g g.table first).2 = [] ∧ (ofGrammar g' g'.table first).2 = [] :=
    have silent := eq_nil_of_hasErrors (keyed_resolve g) none
    ⟨silent, h.quiet_normal silent⟩
  rw [Resolved.normalize_eq, Resolved.normalize_eq]
  simp only [List.nil_append]
  refine .endStage (fun none => ?_) (fun none => ?_) fun none => ?_
  · rw [(quiet h none).2]
    rfl
  · rw [(quiet h.symm none).2]
    rfl
  · obtain ⟨silent, silent'⟩ := quiet h none
    simp only [Symbols.resolve, List.append_eq_nil_iff] at names
    exact ⟨⟨names.1.1.1.2, silent⟩, by rw [silent], by rw [silent']⟩

variable {first : String} (clean : Clean g first)

include clean

theorem disambiguate_alike (settings : Settings) : SameOutcome
    (fun d d' => d = ⟨g.settled settings first, g.levels settings,
        Disambiguation.tables (g.settled settings first), first, []⟩
      ∧ d' = ⟨g'.settled settings first, g'.levels settings,
        Disambiguation.tables (g'.settled settings first), first, []⟩)
    (Normalized.disambiguate ⟨settings, g.normalForm first, first, []⟩)
    (Normalized.disambiguate ⟨settings, g'.normalForm first, first, []⟩) := by
  have quiet {g g' : Grammar} (h : g.Reorders g') (clean : Clean g first)
      (none : Diagnostic.hasErrors ([] ++ (Levels.inEffect g.precedences settings.levels).2
        ++ (g.normalForm first).unknownLevelReports (g.levels settings)) = false) :
      [] ++ (Levels.inEffect g.precedences settings.levels).2
          ++ (g.normalForm first).unknownLevelReports (g.levels settings) = []
      ∧ [] ++ (Levels.inEffect g'.precedences settings.levels).2
          ++ (g'.normalForm first).unknownLevelReports (g'.levels settings) = [] := by
    simp only [List.nil_append, Diagnostic.hasErrors_append, Bool.or_eq_false_iff] at none
    have consistent := Diagnostic.eq_nil_of_hasErrors
      (fun _ hd => isError_of_mem_inEffect hd) none.1
    have named := Diagnostic.eq_nil_of_hasErrors
      (fun _ hd => isError_of_mem_unknownLevelReports hd) none.2
    have named' := (h.renumbers clean).back.unknownLevelReports_eq_nil named
    rw [consistent, named, levels, h.precedences, consistent, named']
    exact ⟨rfl, rfl⟩
  rw [Grammar.disambiguate_eq, Grammar.disambiguate_eq]
  refine .endStage (fun none => ?_) (fun none => ?_) fun none => ?_
  · exact (congrArg Diagnostic.hasErrors (quiet h clean none).2).trans rfl
  · exact (congrArg Diagnostic.hasErrors (quiet h.symm (h.clean clean) none).2).trans rfl
  · obtain ⟨silent, silent'⟩ := quiet h clean none
    exact ⟨congrArg (Disambiguated.mk _ _ _ _) silent, congrArg (Disambiguated.mk _ _ _ _) silent'⟩

theorem validate_alike (settings : Settings) : SameOutcome CompiledGrammar.Agree
    (Disambiguated.validate ⟨g.settled settings first, g.levels settings,
      Disambiguation.tables (g.settled settings first), first, []⟩)
    (Disambiguated.validate ⟨g'.settled settings first, g'.levels settings,
      Disambiguation.tables (g'.settled settings first), first, []⟩) := by
  have renumbers {g g' : Grammar} (h : g.Reorders g') (clean : Clean g first) :
      Renumbers (g.renumbering g' first) (g'.renumbering g first) (g.settled settings first)
        (g'.settled settings first) := by
    rw [settled, settled, levels, levels, h.precedences]
    exact (h.renumbers clean).resolveLevels _
  have quiet {g g' : Grammar} (h : g.Reorders g') (clean : Clean g first)
      (valid : Diagnostic.hasErrors (g.verdicts settings first) = false) :
      Diagnostic.hasErrors (g'.verdicts settings first) = false := by
    obtain ⟨tokens, repeats, ambiguities⟩ := Validation.quiet_of_hasErrors valid
    have same := renumbers h clean
    rw [conflictSets, ← h.conflicts] at ambiguities
    exact Validation.hasErrors_reports (same.tokens_sound tokens)
      (same.repeats_sound tokens repeats) (same.ambiguities_sound ambiguities)
  rw [validate_eq, validate_eq]
  exact .endStage (quiet h clean) (quiet h.symm (h.clean clean))
    fun _ => (renumbers h clean).agree _ _ _ _ _ _

end Grammar.Reorders

namespace Grammar

/-- The order of rules of different names decides neither whether a grammar with a given start rule
compiles, nor at which stage it fails, nor what a rule of some name is compiled to. -/
theorem compile_reordered (g : Grammar) (rules : List Definition) (order : g.rules.Perm rules)
    (distinct : (g.rules.map Definition.name).Nodup) (start : String) (levels : Option Levels) :
    SameOutcome (fun c c' => (∀ name, g.table.kind? name = { g with rules }.table.kind? name)
        ∧ c.Agree c')
      (g.compile ⟨some start, levels⟩) ({ g with rules }.compile ⟨some start, levels⟩) := by
  have h : g.Reorders { g with rules } := ⟨distinct, order, rfl⟩
  have kinds (name : String) : g.table.kind? name = { g with rules }.table.kind? name := by
    rw [(resolve_reordered h).kind?_eq]
  refine (h.resolve_alike start levels).bind fun r r' => ?_
  rintro ⟨names, first, rfl, rfl⟩
  refine (h.normalize_alike names _ first).bind fun n n' => ?_
  rintro ⟨clean, rfl, rfl⟩
  refine (h.disambiguate_alike clean _).bind fun d d' => ?_
  rintro ⟨rfl, rfl⟩
  exact (h.validate_alike clean _).mono fun c c' agree => ⟨kinds, agree⟩

/-- Sums and products of numbers. -/
def operations : Grammar where
  name := "operations"
  rules := [
    ⟨"sum", .prec (.integer 1) .left (.seq [.field "left" (.symbol "expr"),
      .terminal (.literal "+"), .field "right" (.symbol "expr")]), false⟩,
    ⟨"product", .prec (.integer 2) .left (.seq [.field "left" (.symbol "expr"),
      .terminal (.literal "*"), .field "right" (.symbol "expr")]), false⟩,
    ⟨"expr", .choice [.symbol "sum", .symbol "product", .symbol "_operand"], false⟩,
    ⟨"_operand", .terminal (.literal "n"), true⟩]
  extras := []
  precedences := []
  conflicts := []
  externals := []
  inlined := []
  supertypes := []
  word := none

def reversedOperations : Grammar := { operations with rules := operations.rules.reverse }

/-- Sums and products trade their numbers if the rules are reversed, and agree all the same. -/
theorem compile_reordered_operations : ∃ c c', operations.compile ⟨some "expr", none⟩ = .ok c
    ∧ reversedOperations.compile ⟨some "expr", none⟩ = .ok c'
    ∧ c.vars.map Variable.name = ["expr", "sum", "product"]
    ∧ c'.vars.map Variable.name = ["expr", "product", "sum"] ∧ c.Agree c' := by
  have names : (operations.compile ⟨some "expr", none⟩).toOption.map
      (fun c => c.vars.map Variable.name) = some ["expr", "sum", "product"] := by cbv
  have names' : (reversedOperations.compile ⟨some "expr", none⟩).toOption.map
      (fun c => c.vars.map Variable.name) = some ["expr", "product", "sum"] := by cbv
  have same := compile_reordered operations operations.rules.reverse
    (List.reverse_perm _).symm (by decide) "expr" none
  change SameOutcome _ _ (reversedOperations.compile _) at same
  cases compiled : operations.compile ⟨some "expr", none⟩ with
  | error f => simp [compiled, Except.toOption] at names
  | ok c =>
    cases compiled' : reversedOperations.compile ⟨some "expr", none⟩ with
    | error f => simp [compiled', Except.toOption] at names'
    | ok c' =>
      rw [compiled, compiled'] at same
      obtain ⟨-, agree⟩ | _ := same
      simp only [compiled, Except.toOption, Option.map_some, Option.some.injEq] at names
      simp only [compiled', Except.toOption, Option.map_some, Option.some.injEq] at names'
      exact ⟨c, c', rfl, rfl, names, names', agree⟩

end Grammar

end Productions
