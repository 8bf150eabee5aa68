import Productions.Pipeline
import Productions.Proofs.Normal.Structure

/-! What the stages leave where they succeed. Up to the settling of precedences everything that is
reported is an error, so a stage that succeeds has reported nothing. -/
namespace Productions

/-! The parts of the normal form of a grammar. -/
namespace Grammar

variable (g : Grammar) (start : String)

abbrev table : SymbolTable := (Symbols.resolve g).1

abbrev naming : Naming := NormalForm.namingOf g g.table start

abbrev expandedRules : OrderedMap String Inlined := NormalForm.expandedIn g g.table

abbrev lexicon : Lexicon := NormalForm.lexiconOf g g.table start

abbrev normalForm : NormalForm := (NormalForm.ofGrammar g g.table start).1

end Grammar

namespace NormalForm

/-- Names and normal form of a grammar were found without reports. -/
structure Clean (g : Grammar) (start : String) : Prop where
  names : Symbols.referenceReports g (Symbols.declared g) = []
  normal : (ofGrammar g g.table start).2 = []

end NormalForm

theorem exists_ok_of_isOk {ε α : Type} {result : Except ε α} (h : result.isOk = true) :
    ∃ a, result = .ok a := by
  cases result with
  | ok a => exact ⟨a, rfl⟩
  | error f => cases h

/-- There is a result where a part of it is known, and it has this part. -/
theorem exists_ok_of_toOption_map {ε α β : Type} {result : Except ε α} {part : α → β} {b : β}
    (h : result.toOption.map part = some b) : ∃ a, result = .ok a ∧ part a = b := by
  cases result with
  | ok a => exact ⟨a, rfl, Option.some.inj h⟩
  | error f => cases h

theorem endStage_eq_ok {α : Type} {stage : Stage} {reports : List Diagnostic} {result a : α}
    (h : endStage stage reports result = .ok a) :
    result = a ∧ Diagnostic.hasErrors reports = false := by
  unfold endStage at h
  split at h <;> rename_i errors
  · cases h
  · cases h
    exact ⟨rfl, by simpa using errors⟩

theorem endStage_of_quiet {α : Type} {stage : Stage} {reports : List Diagnostic} {result : α}
    (quiet : Diagnostic.hasErrors reports = false) : endStage stage reports result = .ok result := by
  rw [endStage, if_neg (by simp [quiet])]

theorem startRule_eq_ok {g : Grammar} {settings : Settings} {t : SymbolTable} (keyed : t.Keyed)
    {start : String} (h : startRule g settings t = .ok start) :
    settings.start.or (t.infos.head?.map SymbolInfo.name) = some start
      ∧ t.contains start = true := by
  unfold startRule at h
  cases given : settings.start with
  | some name =>
    by_cases known : t.contains name = true
    · simp only [given, known, pure, Except.pure, bind, Except.bind, if_true] at h
      split at h
      · cases h
      · cases h
        exact ⟨rfl, known⟩
    · simp only [given, if_neg known, bind, Except.bind] at h
      cases h
  | none =>
    cases head : t.infos.head? with
    | none =>
      simp only [given, head, bind, Except.bind] at h
      cases h
    | some info =>
      have get := keyed.get?_name (List.mem_of_head? head)
      simp only [given, head, pure, Except.pure, bind, Except.bind] at h
      split at h
      · cases h
      · cases h
        exact ⟨rfl, SymbolTable.contains_iff.2 ⟨info, get⟩⟩

namespace Grammar

variable {g : Grammar} {settings : Settings} {r : Resolved}

theorem resolve_eq_ok (h : g.resolve settings = .ok r) :
    (Symbols.resolve g).2 = [] ∧ ∃ start, startRule g settings g.table = .ok start
      ∧ r = ⟨g, settings, g.table, start, []⟩ := by
  simp only [Grammar.resolve] at h
  split at h
  · rename_i start first
    obtain ⟨rfl, none⟩ := endStage_eq_ok h
    have quiet := Diagnostic.eq_nil_of_hasErrors
      (fun d hd => Symbols.isError_of_mem_resolve hd) none
    exact ⟨quiet, start, first, by rw [quiet]⟩
  · cases h

end Grammar

namespace Resolved

variable {g : Grammar} {settings : Settings} {r : Resolved} {n : Normalized}

theorem normalize_eq (r : Resolved) : r.normalize =
    endStage .normalize (r.reports ++ (NormalForm.ofGrammar r.grammar r.table r.start).2)
      ⟨r.settings, (NormalForm.ofGrammar r.grammar r.table r.start).1, r.start,
        r.reports ++ (NormalForm.ofGrammar r.grammar r.table r.start).2⟩ := rfl

theorem normalize_eq_ok (resolved : g.resolve settings = .ok r) (h : r.normalize = .ok n) :
    NormalForm.Clean g r.start ∧ n = ⟨settings, g.normalForm r.start, r.start, []⟩ := by
  obtain ⟨names, start, -, rfl⟩ := Grammar.resolve_eq_ok resolved
  rw [normalize_eq] at h
  obtain ⟨rfl, none⟩ := endStage_eq_ok h
  simp only [List.nil_append] at none
  have quiet := NormalForm.eq_nil_of_hasErrors (Symbols.keyed_resolve g) none
  refine ⟨⟨?_, quiet⟩, by simp only [quiet, List.nil_append]⟩
  simp only [Symbols.resolve, List.append_eq_nil_iff] at names
  exact names.1.1.1.2

end Resolved

namespace Grammar

variable (g : Grammar) (settings : Settings) (start : String)

abbrev levels : Levels := (Levels.inEffect g.precedences settings.levels).1

abbrev settled : NormalForm := (g.normalForm start).resolveLevels (g.levels settings)

abbrev conflictSets : Conflicts := Conflicts.ofDeclared g.conflicts

abbrev verdicts : List Diagnostic :=
  Validation.reports (g.settled settings start) (Disambiguation.tables (g.settled settings start))
    g.conflictSets start

variable {g settings start}

theorem isError_of_mem_inEffect {orderings : List (List OrderingEntry)} {given : Option Levels}
    {d : Diagnostic} (h : d ∈ (Levels.inEffect orderings given).2) : d.isError = true := by
  unfold Levels.inEffect at h
  simp only at h
  split at h
  · cases h
  · rw [List.mem_singleton.1 h]
    rfl

theorem isError_of_mem_unknownReports {levels : Levels} {owner : String} {names : List String}
    {d : Diagnostic} (h : d ∈ NormalForm.unknownReports levels owner names) :
    d.isError = true := by
  obtain ⟨name, -, rfl⟩ := List.mem_map.1 h
  rfl

theorem isError_of_mem_unknownLevelReports {n : NormalForm} {levels : Levels} {d : Diagnostic}
    (h : d ∈ n.unknownLevelReports levels) : d.isError = true := by
  simp only [NormalForm.unknownLevelReports, List.mem_append, List.mem_flatMap] at h
  rcases h with (⟨v, -, h⟩ | ⟨e, -, h⟩) | ⟨entry, -, h⟩
  all_goals exact isError_of_mem_unknownReports h

theorem disambiguate_eq (n : Normalized) : n.disambiguate =
    endStage .precedence (n.reports
        ++ (Levels.inEffect n.normal.precedences n.settings.levels).2
        ++ n.normal.unknownLevelReports
          (Levels.inEffect n.normal.precedences n.settings.levels).1)
      ⟨n.normal.resolveLevels (Levels.inEffect n.normal.precedences n.settings.levels).1,
        (Levels.inEffect n.normal.precedences n.settings.levels).1,
        Disambiguation.tables
          (n.normal.resolveLevels (Levels.inEffect n.normal.precedences n.settings.levels).1),
        n.start, n.reports
          ++ (Levels.inEffect n.normal.precedences n.settings.levels).2
          ++ n.normal.unknownLevelReports
            (Levels.inEffect n.normal.precedences n.settings.levels).1⟩ := rfl

abbrev disambiguated (g : Grammar) (settings : Settings) : Except Failure Disambiguated :=
  g.resolve settings >>= Resolved.normalize >>= Normalized.disambiguate

theorem compile_eq (g : Grammar) (settings : Settings) :
    g.compile settings = g.disambiguated settings >>= Disambiguated.validate := by
  unfold compile disambiguated
  cases g.resolve settings with
  | error f => rfl
  | ok r =>
    cases normalized : r.normalize with
    | error f => simp [normalized, bind, Except.bind]
    | ok n => simp [normalized, bind, Except.bind]

/-- What a grammar has gone through when its precedences are settled. -/
structure Settles (g : Grammar) (settings : Settings) (start : String) : Prop where
  first : startRule g settings g.table = .ok start
  names : (Symbols.resolve g).2 = []
  clean : NormalForm.Clean g start
  consistent : (Levels.inEffect g.precedences settings.levels).2 = []
  named : (g.normalForm start).unknownLevelReports (g.levels settings) = []

theorem disambiguated_eq_ok {d : Disambiguated} (h : g.disambiguated settings = .ok d) :
    ∃ start, Settles g settings start ∧ d = ⟨g.settled settings start, g.levels settings,
      Disambiguation.tables (g.settled settings start), start, []⟩ := by
  unfold disambiguated at h
  cases resolved : g.resolve settings with
  | error f => rw [resolved] at h; cases h
  | ok r =>
    cases normalized : r.normalize with
    | error f => simp [resolved, normalized, bind, Except.bind] at h
    | ok n =>
      simp only [resolved, normalized, bind, Except.bind] at h
      obtain ⟨names, start, first, rfl⟩ := resolve_eq_ok resolved
      obtain ⟨clean, rfl⟩ := Resolved.normalize_eq_ok resolved normalized
      rw [disambiguate_eq] at h
      obtain ⟨same, none⟩ := endStage_eq_ok h
      simp only [List.nil_append, Diagnostic.hasErrors_append, Bool.or_eq_false_iff] at none
      have consistent := Diagnostic.eq_nil_of_hasErrors
        (fun d hd => isError_of_mem_inEffect hd) none.1
      have named := Diagnostic.eq_nil_of_hasErrors
        (fun d hd => isError_of_mem_unknownLevelReports hd) none.2
      refine ⟨start, ⟨first, names, clean, consistent, named⟩, same.symm.trans ?_⟩
      refine congrArg (Disambiguated.mk _ _ _ _) ?_
      exact List.append_eq_nil_iff.2 ⟨List.append_eq_nil_iff.2 ⟨rfl, consistent⟩, named⟩

theorem Settles.disambiguated_eq (h : Settles g settings start) :
    g.disambiguated settings = .ok ⟨g.settled settings start, g.levels settings,
      Disambiguation.tables (g.settled settings start), start, []⟩ := by
  have resolved : g.resolve settings = .ok ⟨g, settings, g.table, start, []⟩ := by
    simp only [Grammar.resolve, h.first, h.names]
    exact endStage_of_quiet rfl
  have normalized : Resolved.normalize ⟨g, settings, g.table, start, []⟩
      = .ok ⟨settings, g.normalForm start, start, []⟩ := by
    rw [Resolved.normalize_eq, h.clean.normal]
    exact endStage_of_quiet rfl
  have settled : Normalized.disambiguate ⟨settings, g.normalForm start, start, []⟩
      = .ok ⟨g.settled settings start, g.levels settings,
        Disambiguation.tables (g.settled settings start), start, []⟩ := by
    have quiet : [] ++ (Levels.inEffect g.precedences settings.levels).2
        ++ (g.normalForm start).unknownLevelReports (g.levels settings) = [] := by
      rw [h.consistent, h.named]
      rfl
    have ended : endStage .precedence [] (Disambiguated.mk (g.settled settings start)
        (g.levels settings) (Disambiguation.tables (g.settled settings start)) start [])
          = .ok ⟨g.settled settings start, g.levels settings,
            Disambiguation.tables (g.settled settings start), start, []⟩ := endStage_of_quiet rfl
    rw [← quiet] at ended
    exact ended.trans (by rw [quiet])
  rw [disambiguated, resolved]
  simp only [bind, Except.bind, normalized, settled]

/-- What a compilation has gone through when it succeeds. -/
structure Compiles (g : Grammar) (settings : Settings) (start : String) (c : CompiledGrammar) :
    Prop extends Settles g settings start where
  valid : Diagnostic.hasErrors (g.verdicts settings start) = false
  result : c = CompiledGrammar.ofNormalForm (g.settled settings start) (g.levels settings)
    (Disambiguation.tables (g.settled settings start)) g.conflictSets (g.verdicts settings start)

theorem validate_eq (n : NormalForm) (levels : Levels) (tables : List Disambiguation)
    (start : String) : Disambiguated.validate ⟨n, levels, tables, start, []⟩ =
      endStage .validate (Validation.reports n tables (Conflicts.ofDeclared n.conflicts) start)
        (CompiledGrammar.ofNormalForm n levels tables (Conflicts.ofDeclared n.conflicts)
          (Validation.reports n tables (Conflicts.ofDeclared n.conflicts) start)) := rfl

theorem conflicts_settled : (g.settled settings start).conflicts = g.conflicts := rfl

/-- A grammar whose precedences are settled is compiled unless the checks find errors. -/
theorem Settles.compile_eq (h : Settles g settings start) : g.compile settings =
    endStage .validate (g.verdicts settings start)
      (CompiledGrammar.ofNormalForm (g.settled settings start) (g.levels settings)
        (Disambiguation.tables (g.settled settings start)) g.conflictSets
        (g.verdicts settings start)) := by
  have bound (d : Disambiguated) : (.ok d >>= Disambiguated.validate) = d.validate := rfl
  rw [Grammar.compile_eq, h.disambiguated_eq, bound, validate_eq, conflicts_settled]

theorem compile_eq_ok {c : CompiledGrammar} (h : g.compile settings = .ok c) :
    ∃ start, Compiles g settings start c := by
  cases disambiguated : g.disambiguated settings with
  | error f => rw [Grammar.compile_eq, disambiguated] at h; cases h
  | ok d =>
    obtain ⟨start, settles, -⟩ := disambiguated_eq_ok disambiguated
    rw [settles.compile_eq] at h
    obtain ⟨same, valid⟩ := endStage_eq_ok h
    exact ⟨start, settles, valid, same.symm⟩

/-- Nothing else is needed for a compilation to succeed. -/
theorem Compiles.compile_eq {c : CompiledGrammar} (h : Compiles g settings start c) :
    g.compile settings = .ok c := by
  rw [h.toSettles.compile_eq, h.result]
  exact endStage_of_quiet h.valid

end Grammar

end Productions
