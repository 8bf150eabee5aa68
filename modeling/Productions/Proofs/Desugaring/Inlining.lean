import Productions.Proofs.Desugaring.Tables
import Productions.Proofs.Inlining.Invariants
import Productions.Proofs.Normal.Structure

/-! Inlining in grammars that look alike. The bodies of rules are inlined from their canonical
forms, which are the same. Extras are inlined as they stand, but only after every hidden rule has
been expanded; then nothing is expanded any more, and a rule may be met any number of times. -/
namespace Productions

namespace Inlining

variable {t u : SymbolTable}

theorem expansion_eq (h : t.Alike u) (fuel : Nat) : expansion t fuel = expansion u fuel := by
  induction fuel with
  | zero => rfl
  | succ fuel ih =>
    funext stack name
    simp only [expansion, h.isInlined_eq, ih]
    obtain ⟨found, found'⟩ | ⟨i, j, found, found', r⟩ := h.get?_cases name
    · rw [found, found']
    · rw [found, found']
      simp only [r.body.canonicalize]

theorem expand_eq (h : t.Alike u) : expand t = expand u := by
  have size : t.size = u.size := by
    rw [size_eq, size_eq, h.rules.keys_eq]
  funext name
  rw [expand, expand, size, expansion_eq h]

theorem inline_eq (h : t.Alike u) : inline t = inline u := by
  funext rule
  rw [inline, inline, h.isInlined_eq, expand_eq h]

theorem body_eq (h : t.Alike u) : body t = body u := by
  funext name
  rw [body, body, h.isInlined_eq, expand_eq h, inline_eq h]
  obtain ⟨found, found'⟩ | ⟨i, j, found, found', r⟩ := h.get?_cases name
  · rw [found, found']
  · rw [found, found']
    simp only [r.body.canonicalize]

theorem expanded_reportCycle (cycle : List String) (s : Inlining) :
    (reportCycle cycle s).expanded = s.expanded := by
  unfold reportCycle
  dsimp only
  split <;> rfl

theorem invariant_known (t : SymbolTable) (k : String) :
    Invariant t fun s => k ∈ s.expanded.keys where
  used _ _ known := known
  entered _ _ _ known := OrderedMap.mem_keys_insert.2 (.inl known)
  reported s cycle _ known := by rwa [expanded_reportCycle]

/-- A hidden rule is expanded when its turn comes, if it has not been before. -/
theorem known_of_body {name : String} (hidden : t.isInlined name = true) {s s' : Inlining}
    {inlined : Inlined} (h : (body t name).run s = (inlined, s')) : name ∈ s'.expanded.keys := by
  obtain ⟨info, get, -⟩ := exists_of_isInlined hidden
  rw [body, if_pos hidden, expand, expansion] at h
  obtain ⟨_, _, hget, h⟩ := run_bind_eq_iff.1 h
  obtain ⟨rfl, rfl⟩ := run_get_eq_iff.1 hget
  split at h
  · rename_i found entry
    obtain ⟨rfl, rfl⟩ := run_pure_eq_iff.1 h
    exact OrderedMap.get?_isSome_iff.1 (by rw [entry]; rfl)
  · rw [if_neg (by simp), get] at h
    obtain ⟨inner, s₁, -, h⟩ := run_bind_eq_iff.1 h
    obtain ⟨_, _, hmodify, h⟩ := run_bind_eq_iff.1 h
    obtain rfl := run_modify_eq_iff.1 hmodify
    obtain ⟨rfl, rfl⟩ := run_pure_eq_iff.1 h
    exact OrderedMap.mem_keys_insert.2 (.inr rfl)

def Complete (t : SymbolTable) (s : Inlining) : Prop :=
  ∀ name, t.isInlined name = true → name ∈ s.expanded.keys

theorem expand_of_complete {s : Inlining} (complete : Complete t s) {name : String}
    (hidden : t.isInlined name = true) :
    ∃ inlined, (expand t name).run s = (inlined, s) ∧ inlined.rule = ruleIn s.expanded name := by
  obtain ⟨inlined, entry⟩ :=
    Option.isSome_iff_exists.1 (OrderedMap.get?_isSome_iff.2 (complete name hidden))
  refine ⟨inlined, ?_, (ruleIn_eq entry).symm⟩
  rw [expand, expansion]
  refine run_bind_eq_iff.2 ⟨s, s, rfl, ?_⟩
  rw [entry]
  rfl

mutual

theorem substitute_of_complete : (r : Rule) → (s : Inlining) → Complete t s →
    ∃ used, (substitute t.isInlined (expand t) r).run s
      = (r.unfoldNames t.isInlined (ruleIn s.expanded), { s with used })
  | .terminal _, s, _ => ⟨s.used, rfl⟩
  | .symbol name, s, complete => by
    rw [substitute, Rule.unfoldNames]
    split
    · rename_i hidden
      obtain ⟨inlined, run, rule⟩ := expand_of_complete complete hidden
      refine ⟨(s.used.insert name).union inlined.used, run_bind_eq_iff.2 ⟨inlined, s, run, ?_⟩⟩
      rw [← rule]
      rfl
    · exact ⟨s.used, rfl⟩
  | .seq members, s, complete => by
    obtain ⟨used, run⟩ := substituteAll_of_complete members s complete
    exact ⟨used, run_map_eq_iff.2 ⟨_, run, rfl⟩⟩
  | .choice members, s, complete => by
    obtain ⟨used, run⟩ := substituteAll_of_complete members s complete
    exact ⟨used, run_map_eq_iff.2 ⟨_, run, rfl⟩⟩
  | .repeated content _, s, complete | .optional content, s, complete
  | .token content _, s, complete | .prec _ _ content, s, complete
  | .aliased content _ _, s, complete | .field _ content, s, complete => by
    obtain ⟨used, run⟩ := substitute_of_complete content s complete
    exact ⟨used, run_bind_eq_iff.2 ⟨_, _, run, rfl⟩⟩

theorem substituteAll_of_complete : (rules : List Rule) → (s : Inlining) → Complete t s →
    ∃ used, (substituteAll t.isInlined (expand t) rules).run s
      = (Rule.unfoldAll t.isInlined (ruleIn s.expanded) rules, { s with used })
  | [], s, _ => ⟨s.used, rfl⟩
  | r :: rs, s, complete => by
    obtain ⟨used, first⟩ := substitute_of_complete r s complete
    obtain ⟨used', rest⟩ := substituteAll_of_complete rs { s with used } complete
    exact ⟨used', run_bind_eq_iff.2 ⟨_, _, first, run_bind_eq_iff.2 ⟨_, _, rest, rfl⟩⟩⟩

end

theorem inline_of_complete (r : Rule) {s : Inlining} (complete : Complete t s) :
    ∃ inlined, (inline t r).run s = (inlined, s)
      ∧ inlined.rule = (r.unfoldNames t.isInlined (ruleIn s.expanded)).canonicalize := by
  obtain ⟨used, run⟩ := substitute_of_complete r { s with used := ∅ } complete
  refine ⟨⟨(r.unfoldNames t.isInlined (ruleIn s.expanded)).canonicalize, used⟩, ?_, rfl⟩
  exact run_bind_eq_iff.2 ⟨s, s, rfl, run_bind_eq_iff.2 ⟨_, _, rfl,
    run_bind_eq_iff.2 ⟨_, _, run, rfl⟩⟩⟩

end Inlining

namespace NormalForm

open Inlining

variable {t u : SymbolTable}

theorem inlineRules_eq (h : t.Alike u) {is js : List SymbolInfo}
    (infos : List.Forall₂ SymbolInfo.Alike is js) : inlineRules t is = inlineRules u js := by
  induction infos with
  | nil => rfl
  | cons first _ ih => rw [inlineRules, inlineRules, body_eq h, first.name, ih]

theorem inlineRun_eq (h : t.Alike u) : inlineRun t = inlineRun u := by
  rw [inlineRun, inlineRun, inlineRules_eq h h.infos]

theorem known_of_inlineRules {infos : List SymbolInfo} {info : SymbolInfo} (mem : info ∈ infos)
    (hidden : t.isInlined info.name = true) (s : Inlining) :
    info.name ∈ ((inlineRules t infos).run s).2.expanded.keys := by
  induction infos generalizing s with
  | nil => cases mem
  | cons other infos ih =>
    rcases List.mem_cons.1 mem with rfl | mem
    · exact (invariant_known t info.name).inlineRules infos _ (known_of_body hidden rfl)
    · exact ih mem _

theorem complete_inlineRun (keyed : t.Keyed) : Complete t (inlineRun t).2 := by
  intro name hidden
  obtain ⟨info, get, -⟩ := exists_of_isInlined hidden
  obtain rfl := keyed.name_eq get
  exact known_of_inlineRules (SymbolTable.mem_infos.2 ⟨_, get⟩) hidden _

theorem inlineExtras_of_complete {s : Inlining} (complete : Complete t s) (extras : List Rule) :
    (inlineExtras t extras).run s
      = (extras.map fun r => (r.unfoldNames t.isInlined (ruleIn s.expanded)).canonicalize, s) := by
  induction extras with
  | nil => rfl
  | cons extra extras ih =>
    obtain ⟨inlined, run, rule⟩ := inline_of_complete extra complete
    refine run_bind_eq_iff.2 ⟨_, _, run, run_bind_eq_iff.2 ⟨_, _, ih, ?_⟩⟩
    rw [List.map_cons, ← rule]
    rfl

theorem extrasRun_eq {g g' : Grammar} (h : g.Alike g') (keyed : t.Keyed) (keyed' : u.Keyed)
    (tables : t.Alike u) : extrasRun g t = extrasRun g' u := by
  rw [extrasRun, extrasRun, inlineExtras_of_complete (complete_inlineRun keyed),
    inlineExtras_of_complete (complete_inlineRun keyed'), inlineRun_eq tables, tables.isInlined_eq,
    map_eq_of_forall₂ h.extras fun _ _ r => r.unfoldNames _ _]

end NormalForm

end Productions
