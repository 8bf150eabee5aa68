import Productions.Proofs.Canonical
import Productions.Proofs.Inlining.Bodies

/-! Rules without hidden names. Inlining reports nothing on them and leaves them as they are. -/
namespace Productions

def Rule.Visible (hidden : String → Bool) (r : Rule) : Prop :=
  ∀ k ∈ r.occurrences, hidden k = false

namespace Rule

variable {hidden : String → Bool} {expansions : String → Rule}

theorem unfoldAll_eq_self {rules : List Rule}
    (h : ∀ r ∈ rules, r.unfoldNames hidden expansions = r) :
    unfoldAll hidden expansions rules = rules := by
  rw [unfoldAll_eq_map]
  exact (List.map_congr_left h).trans (List.map_id _)

theorem Visible.of_mem {rules : List Rule} (h : ∀ k ∈ occurrencesAll rules, hidden k = false)
    {r : Rule} (mem : r ∈ rules) : r.Visible hidden :=
  fun k hk => h k (mem_occurrencesAll.2 ⟨r, mem, hk⟩)

theorem Canonical.unfoldNames_eq {r : Rule} (h : Canonical r) (visible : r.Visible hidden) :
    r.unfoldNames hidden expansions = r := by
  induction h with
  | terminal => rfl
  | symbol name =>
    rw [unfoldNames, visible name (by simp [occurrences])]
    rfl
  | seq _ flat several ih =>
    rw [unfoldNames, unfoldAll_eq_self fun r hr => ih r hr (Visible.of_mem visible hr),
      makeSeq_eq_seq flat several]
  | choice _ flat distinct several ih =>
    rw [unfoldNames, unfoldAll_eq_self fun r hr => ih r hr (Visible.of_mem visible hr),
      makeChoice_eq_choice flat distinct several]
  | repeated _ ih | token _ _ ih | prec _ ih | aliased _ ih | field _ ih =>
    rw [unfoldNames, ih visible]

end Rule

namespace Inlining

variable {hidden : String → Bool} {expand : String → StateM Inlining Inlined}

mutual

theorem substitute_of_visible : (r : Rule) → r.Visible hidden → {s s' : Inlining} → {r' : Rule} →
    (substitute hidden expand r).run s = (r', s') → s = s'
  | .terminal t, _, s, s', r', h => (run_pure_eq_iff.1 h).2
  | .symbol name, visible, s, s', r', h => by
    have shown : ¬ hidden name = true := by simp [visible name (by simp [Rule.occurrences])]
    rw [substitute, if_neg shown] at h
    exact (run_pure_eq_iff.1 h).2
  | .seq members, visible, s, s', r', h | .choice members, visible, s, s', r', h => by
    obtain ⟨parts, run, -⟩ := run_map_eq_iff.1 h
    exact substituteAll_of_visible members visible run
  | .repeated content _, visible, s, s', r', h | .optional content, visible, s, s', r', h
  | .token content _, visible, s, s', r', h | .prec _ _ content, visible, s, s', r', h
  | .aliased content _ _, visible, s, s', r', h | .field _ content, visible, s, s', r', h => by
    rw [substitute, bind_pure_comp] at h
    obtain ⟨part, run, -⟩ := run_map_eq_iff.1 h
    exact substitute_of_visible content visible run

theorem substituteAll_of_visible : (rules : List Rule) →
    (∀ k ∈ Rule.occurrencesAll rules, hidden k = false) → {s s' : Inlining} → {rules' : List Rule} →
    (substituteAll hidden expand rules).run s = (rules', s') → s = s'
  | [], _, s, s', rules', h => (run_pure_eq_iff.1 h).2
  | r :: rs, visible, s, s'', rules', h => by
    simp only [Rule.occurrencesAll, List.mem_append] at visible
    obtain ⟨first, s', hfirst, h⟩ := run_bind_eq_iff.1 h
    obtain ⟨rest, _, hrest, h⟩ := run_bind_eq_iff.1 h
    obtain ⟨-, rfl⟩ := run_pure_eq_iff.1 h
    exact (substitute_of_visible r (fun k hk => visible k (.inl hk)) hfirst).trans
      (substituteAll_of_visible rs (fun k hk => visible k (.inr hk)) hrest)

end

theorem inlineWith_of_visible {r : Rule} (visible : r.Visible hidden) {s s' : Inlining}
    {inlined : Inlined} (h : (inlineWith hidden expand r).run s = (inlined, s')) : s = s' := by
  obtain ⟨outer, s₁, hget, h⟩ := run_bind_eq_iff.1 h
  obtain ⟨rfl, rfl⟩ := run_get_eq_iff.1 hget
  obtain ⟨_, s₂, hset, h⟩ := run_bind_eq_iff.1 h
  obtain rfl := run_set_eq_iff.1 hset
  obtain ⟨inner, s₃, run, h⟩ := run_bind_eq_iff.1 h
  obtain ⟨after, s₄, hget, h⟩ := run_bind_eq_iff.1 h
  obtain ⟨rfl, rfl⟩ := run_get_eq_iff.1 hget
  obtain ⟨_, s₅, hset, h⟩ := run_bind_eq_iff.1 h
  obtain rfl := run_set_eq_iff.1 hset
  obtain ⟨-, rfl⟩ := run_pure_eq_iff.1 h
  obtain rfl := substitute_of_visible r visible run
  rfl

variable {t : SymbolTable}

theorem body_of_visible {name : String} {info : SymbolInfo} (get : t.get? name = some info)
    (visible : info.body.canonicalize.Visible t.isInlined) {s s' : Inlining} {inlined : Inlined}
    (h : (body t name).run s = (inlined, s')) : s'.reports = s.reports := by
  unfold body at h
  by_cases hidden : t.isInlined name = true
  · rw [if_pos hidden] at h
    obtain ⟨_, _, hget, h⟩ := run_bind_eq_iff.1 h
    obtain ⟨rfl, rfl⟩ := run_get_eq_iff.1 hget
    split at h
    · obtain ⟨-, rfl⟩ := run_pure_eq_iff.1 h
      rfl
    · rw [if_neg (by simp), get] at h
      obtain ⟨inner, s₁, run, h⟩ := run_bind_eq_iff.1 h
      obtain ⟨_, _, hmodify, h⟩ := run_bind_eq_iff.1 h
      obtain rfl := run_modify_eq_iff.1 hmodify
      obtain ⟨-, rfl⟩ := run_pure_eq_iff.1 h
      rw [← inlineWith_of_visible visible run]
  · rw [if_neg hidden, get] at h
    rw [← inlineWith_of_visible visible h]

theorem inlineRules_of_visible {infos : List SymbolInfo}
    (get : ∀ info ∈ infos, t.get? info.name = some info)
    (visible : ∀ info ∈ infos, info.body.canonicalize.Visible t.isInlined) {s s' : Inlining}
    {out : List (String × Inlined)} (h : (NormalForm.inlineRules t infos).run s = (out, s')) :
    s'.reports = s.reports := by
  induction infos generalizing s out with
  | nil => rw [(run_pure_eq_iff.1 h).2]
  | cons info infos ih =>
    obtain ⟨inlined, s₁, first, h⟩ := run_bind_eq_iff.1 h
    obtain ⟨rest, s₂, run, h⟩ := run_bind_eq_iff.1 h
    obtain ⟨-, rfl⟩ := run_pure_eq_iff.1 h
    rw [ih (fun i hi => get i (by simp [hi])) (fun i hi => visible i (by simp [hi])) run,
      body_of_visible (get info (by simp)) (visible info (by simp)) first]

theorem inlineExtras_of_visible {extras : List Rule}
    (visible : ∀ extra ∈ extras, extra.Visible t.isInlined) {s s' : Inlining} {out : List Rule}
    (h : (NormalForm.inlineExtras t extras).run s = (out, s')) : s = s' := by
  induction extras generalizing s out with
  | nil => exact (run_pure_eq_iff.1 h).2
  | cons extra extras ih =>
    obtain ⟨inlined, s₁, first, h⟩ := run_bind_eq_iff.1 h
    obtain ⟨rest, s₂, run, h⟩ := run_bind_eq_iff.1 h
    obtain ⟨-, rfl⟩ := run_pure_eq_iff.1 h
    exact (inlineWith_of_visible (visible extra (by simp)) first).trans
      (ih (fun e he => visible e (by simp [he])) run)

end Inlining

end Productions
