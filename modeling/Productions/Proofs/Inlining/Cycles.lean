import Productions.Proofs.Inlining.Invariants
import Productions.Proofs.Lowering.Reports
import Productions.Proofs.Normal.Bounds

/-! Reported cycles of hidden rules. An expansion that is finished inside a cycle is kept with a
blank in it, and is not searched again. Still every report is about a cycle that is there, no two
are about the same rules, and where there is a cycle there is a report: without one, every expansion
is right, and a right expansion is derived in finitely many steps. -/
namespace Productions

namespace Inlining

open Relation

variable {t : SymbolTable}

theorem sortedNames_eq_of_perm {xs ys : List String} (h : xs.Perm ys) :
    sortedNames xs = sortedNames ys :=
  ((List.mergeSort_perm xs _).trans (h.trans (List.mergeSort_perm ys _).symm)).eq_of_pairwise'
    (List.pairwise_mergeSort' (· ≤ ·) xs) (List.pairwise_mergeSort' (· ≤ ·) ys)

def cycleReport (cycle : List String) : Diagnostic :=
  .about .inliningCycle (Graph.showCycle cycle) cycle []

/-- Every report is about a cycle, and all of them are remembered by their sorted names. -/
structure Witnessed (t : SymbolTable) (s : Inlining) : Prop where
  cycles : ∀ d ∈ s.reports, HiddenCycle t d.rules ∧ d = cycleReport d.rules
  known : s.cycles.toList = s.reports.map fun d => sortedNames d.rules

theorem Witnessed.start (t : SymbolTable) : Witnessed t start where
  cycles _ hd := by cases hd
  known := rfl

theorem Witnessed.report {s : Inlining} (h : Witnessed t s) {cycle : List String}
    (is : HiddenCycle t cycle) : Witnessed t (reportCycle cycle s) := by
  unfold reportCycle
  dsimp only
  split <;> rename_i seen
  · exact h
  · refine ⟨fun d hd => ?_, ?_⟩
    · rcases List.mem_append.1 hd with hd | hd
      · exact h.cycles d hd
      · rw [List.mem_singleton.1 hd]
        exact ⟨is, rfl⟩
    · have new : sortedNames cycle ∉ s.cycles := fun mem => seen (OrderedSet.contains_iff.2 mem)
      rw [OrderedSet.toList_insert, if_neg new, h.known, List.map_append]
      rfl

theorem invariant_witnessed (t : SymbolTable) : Invariant t (Witnessed t) where
  used _ _ h := ⟨h.cycles, h.known⟩
  entered _ _ _ h := ⟨h.cycles, h.known⟩
  reported _ _ is h := h.report is

/-- The names of a report tell it from every other one. -/
theorem Witnessed.pairwise {s : Inlining} (h : Witnessed t s) :
    s.reports.Pairwise fun d d' => ¬ ∀ name, name ∈ d.rules ↔ name ∈ d'.rules := by
  have distinct : (s.reports.map fun d => sortedNames d.rules).Nodup := h.known ▸ s.cycles.nodup
  refine (List.pairwise_map.1 distinct).imp_of_mem fun {d d'} hd hd' apart same => apart ?_
  exact sortedNames_eq_of_perm ((List.perm_ext_iff_of_nodup (h.cycles d hd).1.distinct
    (h.cycles d' hd').1.distinct).2 same)

end Inlining

namespace NormalForm

open Inlining Relation

variable {t : SymbolTable} (g : Grammar) (start : String)

theorem witnessed_extrasRun : Witnessed t (extrasRun g t).2 :=
  (invariant_witnessed t).extrasRun g (.start t)

theorem kind_of_mem_extrasRun {d : Diagnostic} (h : d ∈ (extrasRun g t).2.reports) :
    d.kind = .inliningCycle := by
  rw [((witnessed_extrasRun g).cycles d h).2]
  rfl

theorem kind_of_mem_partsRun {d : Diagnostic} (h : d ∈ (partsRun g t start).2.reports) :
    d.kind = .invalidTokenContent ∨ d.kind = .invalidExtra :=
  reported_lowerParts (namingOf g t start) g (inlinedRules t) (extrasRun g t).1
    (keptRules t start) start Lowering.start (by intro d hd; cases hd) d h

/-- The cycles are what is reported while rules and extras are inlined. -/
theorem filter_inliningCycle : (ofGrammar g t start).2.filter (fun d => d.kind = .inliningCycle)
    = (extrasRun g t).2.reports := by
  have inlining : ∀ d ∈ (extrasRun g t).2.reports, d.kind = .inliningCycle :=
    fun d hd => kind_of_mem_extrasRun g hd
  have lowering : ∀ d ∈ (partsRun g t start).2.reports, d.kind ≠ .inliningCycle := fun d hd => by
    rcases kind_of_mem_partsRun g start hd with kind | kind <;> simp [kind]
  rw [ofGrammar_eq, List.filter_append, List.filter_eq_self.2 (by simpa using inlining),
    List.filter_eq_nil_iff.2 (by simpa using lowering), List.append_nil]

theorem reports_ne_nil_iff (keyed : t.Keyed) :
    (extrasRun g t).2.reports ≠ [] ↔ ∃ a, TransGen (RefersHidden t) a a := by
  -- Without reports all expansions are derived in finitely many steps, and no rule of a cycle is.
  rw [← hiddenStep_eq_refersHidden, ← not_iff_not, not_not, not_exists]
  exact ⟨acyclic_of_quiet keyed, quiet_of_acyclic keyed⟩

structure Ends (t : SymbolTable) : Prop where
  expansion {fuel : Nat} : t.size < fuel → expansion t fuel = Inlining.expansion t (t.size + 1)
  replacement {bodies : OrderedMap String Rule} {fuel : Nat} : bodies.size < fuel →
    TokenContent.replacement t bodies fuel = TokenContent.replacement t bodies (bodies.size + 1)
  references {bodies : OrderedMap String Rule} {owner : String} {fuel : Nat} : bodies.size < fuel →
    TokenContent.referenceReports t bodies owner fuel
      = TokenContent.referenceReports t bodies owner (bodies.size + 1)

theorem ends (t : SymbolTable) : Ends t where
  expansion enough := funext fun stack =>
    have bound := t.rules.unseen_le_size stack
    expansion_eq_of_lt _ _ (bound.trans_lt enough) (Nat.lt_succ_of_le bound)
  replacement {bodies _} enough := funext fun chain =>
    have bound := bodies.unseen_le_size chain
    TokenContent.replacement_eq_of_lt _ _ (bound.trans_lt enough) (Nat.lt_succ_of_le bound)
  references {bodies _ _} enough := funext fun chain =>
    have bound := bodies.unseen_le_size chain
    TokenContent.referenceReports_eq_of_lt _ _ (bound.trans_lt enough) (Nat.lt_succ_of_le bound)

/-- What normalization should report about cycles of hidden rules. -/
structure CyclesReported (g : Grammar) (t : SymbolTable) (start : String) : Prop where
  ends : Ends t
  exact : (∃ d ∈ (ofGrammar g t start).2, d.kind = .inliningCycle)
    ↔ ∃ a, TransGen (RefersHidden t) a a
  genuine : ∀ d ∈ (ofGrammar g t start).2, d.kind = .inliningCycle →
    HiddenCycle t d.rules ∧ d = cycleReport d.rules
  once : ((ofGrammar g t start).2.filter fun d => d.kind = .inliningCycle).Pairwise
    fun d d' => ¬ ∀ name, name ∈ d.rules ↔ name ∈ d'.rules

/-- Normalization ends, reports a cycle of hidden rules exactly where there is one, and reports
only cycles that are there, each set of rules once. -/
theorem cyclesReported (keyed : t.Keyed) : CyclesReported g t start := by
  have reported (d : Diagnostic) : (d ∈ (ofGrammar g t start).2 ∧ d.kind = .inliningCycle)
      ↔ d ∈ (extrasRun g t).2.reports := by
    rw [← filter_inliningCycle g start, List.mem_filter, decide_eq_true_iff]
  refine ⟨ends t, ?_, fun d hd kind => ?_, ?_⟩
  · simp only [reported, ← reports_ne_nil_iff g keyed]
    exact ⟨fun ⟨_, hd⟩ => List.ne_nil_of_mem hd, List.exists_mem_of_ne_nil _⟩
  · exact (witnessed_extrasRun g).cycles d ((reported d).1 ⟨hd, kind⟩)
  · rw [filter_inliningCycle]
    exact (witnessed_extrasRun g).pairwise

/-- Nested lists. The hidden rules `_e` for an entry and `_l` for a list refer to each other, and
the second one also to itself. -/
def nestedLists : Grammar where
  name := "lists"
  rules := [
    ⟨"document", .symbol "_l", false⟩,
    ⟨"_e", .choice [.terminal (.literal "x"),
      .seq [.terminal (.literal "("), .symbol "_l", .terminal (.literal ")")]], true⟩,
    ⟨"_l", .seq [.symbol "_e", .optional (.symbol "_l")], true⟩]
  extras := []
  precedences := []
  conflicts := []
  externals := []
  inlined := []
  supertypes := []
  word := none

def listsTable : SymbolTable := (Symbols.resolve nestedLists).1

/-- The cycle of both rules is reported, and so is that of the second one. -/
theorem cyclesReported_nestedLists : CyclesReported nestedLists listsTable "document"
    ∧ (ofGrammar nestedLists listsTable "document").2.filter (fun d => d.kind = .inliningCycle)
      = [cycleReport ["_l", "_e"], cycleReport ["_l"]] := by
  refine ⟨cyclesReported _ _ (Symbols.keyed_resolve nestedLists), ?_⟩
  rw [filter_inliningCycle]
  cbv

end NormalForm

end Productions
