import Productions.Proofs.Nullability
import Productions.Proofs.Stages

/-! What the checks leave where they find no errors: tokens that are readable and not empty, no
repetition of the empty text outside hidden rules that were expanded, and no ambiguity that is not
declared. -/
namespace Productions

namespace Validation

variable {entry : LexicalEntry} {d : Diagnostic}

theorem isError_of_patternReport? {owner : String} {t : Terminal}
    (h : patternReport? owner t = some d) : d.isError = true := by
  cases t with
  | literal text => cases h
  | pattern value flags =>
    obtain ⟨problem, -, rfl⟩ := Option.map_eq_some_iff.1 h
    rfl

theorem isError_of_mem_tokenReports (h : d ∈ tokenReports entry) : d.isError = true := by
  simp only [tokenReports] at h
  split at h
  · rw [List.mem_singleton.1 h]
    rfl
  · obtain ⟨t, -, report⟩ := List.mem_filterMap.1 h
    exact isError_of_patternReport? report

theorem isError_of_mem_repeatReports {g : NormalForm} {f : FirstSets}
    (h : d ∈ repeatReports g f) : d.isError = true := by
  simp only [repeatReports, List.mem_append, List.mem_map] at h
  rcases h with (⟨_, -, rfl⟩ | ⟨_, -, rfl⟩) | ⟨_, -, rfl⟩ <;> rfl

theorem isError_of_ambiguityReport? {g : NormalForm} {c : Conflicts} {table : Disambiguation}
    (h : ambiguityReport? g c table = some d) : d.isError = true := by
  unfold ambiguityReport? at h
  split at h
  · cases h
  · split at h
    · cases h
    · split at h
      · cases h
      · cases h
        rfl

theorem ambiguityReport?_eq_none_iff {g : NormalForm} {c : Conflicts} {table : Disambiguation} :
    ambiguityReport? g c table = none
      ↔ (table.unresolved ≠ [] → ∀ v, g.vars[table.id]? = some v → c.covers v = true) := by
  unfold ambiguityReport?
  cases unresolved : table.unresolved with
  | nil => simp
  | cons t ts =>
    cases found : g.vars[table.id]? with
    | none => simp
    | some v => by_cases covered : c.covers v = true <;> simp [covered]

theorem sound_of_tokenReports (h : tokenReports entry = []) :
    (∀ value flags, .pattern value flags ∈ entry.content.terminals →
      Pattern.problem? value flags = none)
    ∧ (entry.content.nullable fun _ => false) = false := by
  simp only [tokenReports] at h
  split at h
  · cases h
  · rename_i sound
    refine ⟨fun value flags mem => ?_, ?_⟩
    · have readable := List.filterMap_eq_nil_iff.1 h _ mem
      exact Option.map_eq_none_iff.1 readable
    · simpa [h] using sound

/-- Without reports, the only repetitions of the empty text are in hidden rules that were expanded
into some variable. -/
theorem consuming_of_repeatReports {n : NormalForm} {f : FirstSets} (h : repeatReports n f = []) :
    (∀ v ∈ n.vars, hasEmptyRepeat f.symbolNullable v.body = false)
    ∧ (∀ name body, n.expansions.get? name = some body →
      hasEmptyRepeat f.symbolNullable body = true → ∃ v ∈ n.vars, name ∈ v.inlined)
    ∧ ∀ entry ∈ n.lexicon, hasEmptyTokenRepeat entry.content = false := by
  simp only [repeatReports, List.append_eq_nil_iff, List.map_eq_nil_iff,
    List.filter_eq_nil_iff, Bool.not_eq_true] at h
  obtain ⟨⟨vars, expansions⟩, entries⟩ := h
  refine ⟨vars, fun name body entry empty => ?_, entries⟩
  have known : name ∈ n.expansions.keys := OrderedMap.get?_isSome_iff.1 (by rw [entry]; rfl)
  have used := expansions name known
  simp only [entry, Option.any_some, empty, Bool.and_true, Bool.not_eq_eq_eq_not, Bool.not_false,
    OrderedSet.contains_iff, OrderedSet.mem_ofList, List.mem_flatMap] at used
  exact used

theorem mem_sortedSet {names : List String} {name : String} :
    name ∈ Conflicts.sortedSet names ↔ name ∈ names := by
  rw [Conflicts.sortedSet, List.mem_mergeSort, OrderedSet.mem_toList, OrderedSet.mem_ofList]

theorem contains_ofDeclared {declared : List (List String)} {name : String} :
    (Conflicts.ofDeclared declared).contains name = true ↔ ∃ set ∈ declared, name ∈ set := by
  simp only [Conflicts.contains, Conflicts.ofDeclared, List.any_eq_true, OrderedSet.mem_toList,
    OrderedSet.mem_ofList, List.mem_filter, List.mem_map, List.contains_iff_mem]
  constructor
  · rintro ⟨_, ⟨⟨set, mem, rfl⟩, -⟩, named⟩
    exact ⟨set, mem, mem_sortedSet.1 named⟩
  · rintro ⟨set, mem, named⟩
    have kept := mem_sortedSet.2 named
    refine ⟨_, ⟨⟨set, mem, rfl⟩, ?_⟩, kept⟩
    cases sorted : Conflicts.sortedSet set with
    | nil => simp [sorted] at kept
    | cons => rfl

theorem hasErrors_reports {n : NormalForm} {tables : List Disambiguation} {conflicts : Conflicts}
    {start : String} (tokens : ∀ entry ∈ n.lexicon, tokenReports entry = [])
    (repeats : repeatReports n (FirstSets.ofNormalForm n) = [])
    (ambiguities : ∀ d ∈ tables, ambiguityReport? n conflicts d = none) :
    Diagnostic.hasErrors (reports n tables conflicts start) = false := by
  have warnings : Diagnostic.hasErrors
      (conflicts.reports (FirstSets.ofNormalForm n) n ++ unreachableReports n start) = false := by
    simp only [Diagnostic.hasErrors, Conflicts.reports, unreachableReports, List.any_append,
      List.any_map, Bool.or_eq_false_iff, List.any_eq_false]
    exact ⟨fun set _ => Bool.false_ne_true, fun info _ => Bool.false_ne_true⟩
  rw [reports, List.flatMap_eq_nil_iff.2 tokens, repeats,
    List.filterMap_eq_nil_iff.2 ambiguities]
  exact warnings

/-- Without errors, the checks whose reports are errors have nothing to report. -/
theorem quiet_of_hasErrors {n : NormalForm} {tables : List Disambiguation} {conflicts : Conflicts}
    {start : String} (valid : Diagnostic.hasErrors (reports n tables conflicts start) = false) :
    (∀ entry ∈ n.lexicon, tokenReports entry = [])
    ∧ repeatReports n (FirstSets.ofNormalForm n) = []
    ∧ ∀ d ∈ tables, ambiguityReport? n conflicts d = none := by
  simp only [reports, Diagnostic.hasErrors_append, Bool.or_eq_false_iff] at valid
  obtain ⟨⟨⟨⟨tokens, repeats⟩, ambiguities⟩, -⟩, -⟩ := valid
  refine ⟨List.flatMap_eq_nil_iff.1 ?_, ?_, List.filterMap_eq_nil_iff.1 ?_⟩
  · refine Diagnostic.eq_nil_of_hasErrors (fun d hd => ?_) tokens
    obtain ⟨entry, -, hd⟩ := List.mem_flatMap.1 hd
    exact isError_of_mem_tokenReports hd
  · exact Diagnostic.eq_nil_of_hasErrors (fun d hd => isError_of_mem_repeatReports hd) repeats
  · refine Diagnostic.eq_nil_of_hasErrors (fun d hd => ?_) ambiguities
    obtain ⟨table, -, hd⟩ := List.mem_filterMap.1 hd
    exact isError_of_ambiguityReport? hd

end Validation

namespace Grammar.Compiles

open Validation

variable {g : Grammar} {settings : Settings} {start : String} {c : CompiledGrammar}

theorem vars_eq_map (h : g.Compiles settings start c) :
    c.vars = (g.settled settings start).vars.map
      fun v => { v with fields := (g.settled settings start).fieldsOf v.body } := by
  rw [h.result]
  rfl

theorem lexicon_settled (h : g.Compiles settings start c) :
    (g.settled settings start).lexicon = c.lexicon := by
  rw [h.result]
  rfl

theorem quiet (h : g.Compiles settings start c) :
    (∀ entry ∈ (g.settled settings start).lexicon, tokenReports entry = [])
    ∧ repeatReports (g.settled settings start)
      (FirstSets.ofNormalForm (g.settled settings start)) = []
    ∧ ∀ d ∈ Disambiguation.tables (g.settled settings start),
      ambiguityReport? (g.settled settings start) g.conflictSets d = none :=
  quiet_of_hasErrors h.valid

/-- A grammar that compiles has been warned of nothing but conflicts and rules that are not
reached. -/
theorem warnings_eq (h : g.Compiles settings start c) :
    c.warnings = g.conflictSets.reports (FirstSets.ofNormalForm (g.settled settings start))
        (g.settled settings start)
      ++ unreachableReports (g.settled settings start) start := by
  have warnings : c.warnings = g.verdicts settings start := by
    rw [h.result]
    rfl
  obtain ⟨tokens, repeats, ambiguities⟩ := h.quiet
  rw [warnings, verdicts, reports, List.flatMap_eq_nil_iff.2 tokens, repeats,
    List.filterMap_eq_nil_iff.2 ambiguities]
  rfl

/-- A grammar that compiles has no empty tokens, so no terminal at all counts as empty. -/
theorem judges (h : g.Compiles settings start c) :
    (g.settled settings start).numbering.Judges fun _ => false where
  lexical i := by
    refine iff_of_false Bool.false_ne_true ?_
    rintro ⟨content, lookup, nullable⟩
    simp only [NormalForm.numbering, List.getElem?_map, Option.map_eq_some_iff] at lookup
    obtain ⟨entry, found, rfl⟩ := lookup
    rw [(sound_of_tokenReports (h.quiet.1 entry (List.mem_of_getElem? found))).2] at nullable
    cases nullable
  external _ := rfl

end Grammar.Compiles

theorem CompiledGrammar.numbering_eq {g : Grammar} {settings : Settings} {start : String}
    {c : CompiledGrammar} (h : g.Compiles settings start c) :
    c.numbering = (g.settled settings start).numbering := by
  rw [h.result]
  simp only [numbering, ofNormalForm, NormalForm.numbering, NormalForm.bodies, List.map_map]
  rfl

end Productions
