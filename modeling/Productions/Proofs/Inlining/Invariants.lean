import Mathlib.Data.List.Chain
import Productions.Proofs.Inlining.Acyclic
import Productions.Proofs.Runs

/-! Invariants of the inlining. The rules being expanded refer to each other in turn, so a rule that
is met again closes a cycle. What is preserved where such a cycle is reported and where an expansion
is entered holds at the end of every run. -/
namespace Productions

namespace Inlining

variable {t : SymbolTable} {stack : List String} {name k : String}

/-- Distinct hidden rules, each of which refers to the next one and the last one to the first. -/
structure HiddenCycle (t : SymbolTable) (cycle : List String) : Prop where
  nonempty : cycle ≠ []
  distinct : cycle.Nodup
  hidden : ∀ name ∈ cycle, t.isInlined name = true
  closed : (cycle ++ cycle.head?.toList).IsChain (RefersHidden t)

structure Descent (t : SymbolTable) (stack : List String) (name : String) : Prop where
  distinct : stack.Nodup
  hidden : ∀ k ∈ stack ++ [name], t.isInlined k = true
  chain : (stack ++ [name]).IsChain (RefersHidden t)

theorem Descent.start (hidden : t.isInlined name = true) : Descent t [] name where
  distinct := List.nodup_nil
  hidden _ hk := List.mem_singleton.1 hk ▸ hidden
  chain := .singleton name

theorem Descent.deeper (h : Descent t stack name) (apart : name ∉ stack)
    (step : RefersHidden t name k) : Descent t (stack ++ [name]) k where
  distinct := List.nodup_append.2 ⟨h.distinct, by simp, by
    rintro other hother _ hname rfl
    exact apart (List.mem_singleton.1 hname ▸ hother)⟩
  hidden other hother := by
    rcases List.mem_append.1 hother with hother | hother
    · exact h.hidden other hother
    · obtain ⟨_, _, _, hidden⟩ := step
      exact List.mem_singleton.1 hother ▸ hidden
  chain := h.chain.append (.singleton k) (by simpa using step)

/-- A rule that is met again closes a cycle. -/
theorem Descent.cycle (h : Descent t stack name) (met : name ∈ stack) :
    HiddenCycle t (stack.dropWhile fun other => other != name) := by
  obtain ⟨before, after, rfl, apart⟩ := List.eq_append_cons_of_mem met
  have dropped : (before ++ name :: after).dropWhile (fun other => other != name)
      = name :: after := by
    rw [List.dropWhile_append_of_pos fun other hother => by
      simpa using fun same : other = name => apart (same ▸ hother)]
    simp
  rw [dropped]
  refine ⟨by simp, h.distinct.sublist (List.sublist_append_right _ _), fun other hother => ?_, ?_⟩
  · exact h.hidden other (List.mem_append_left _ (List.mem_append_right _ hother))
  · exact h.chain.suffix ⟨before, by simp⟩

structure Invariant (t : SymbolTable) (p : Inlining → Prop) : Prop where
  used : ∀ s used, p s → p { s with used }
  entered : ∀ s name inlined, p s → p { s with expanded := s.expanded.insert name inlined }
  reported : ∀ s cycle, HiddenCycle t cycle → p s → p (reportCycle cycle s)

namespace Invariant

variable {p : Inlining → Prop} {replace : String → StateM Inlining Inlined}

mutual

theorem substitute (h : Invariant t p) : (r : Rule) →
    (∀ k ∈ r.occurrences, t.isInlined k = true → Preserves p (replace k)) →
    Preserves p (Inlining.substitute t.isInlined replace r)
  | .terminal _, _ => .of_pure _
  | .symbol name, each => by
    rw [Inlining.substitute]
    split
    · rename_i hidden
      refine (each name (by simp [Rule.occurrences]) hidden).bind fun inlined => ?_
      refine .bind (.of_modify ?_) fun _ => .of_pure _
      intro s hs
      exact h.used s _ hs
    · exact .of_pure _
  | .seq members, each | .choice members, each => (h.substituteAll members each).map _
  | .repeated content _, each | .optional content, each | .token content _, each
  | .prec _ _ content, each | .aliased content _ _, each | .field _ content, each =>
    (h.substitute content each).bind fun _ => .of_pure _

theorem substituteAll (h : Invariant t p) : (rules : List Rule) →
    (∀ k ∈ Rule.occurrencesAll rules, t.isInlined k = true → Preserves p (replace k)) →
    Preserves p (Inlining.substituteAll t.isInlined replace rules)
  | [], _ => .of_pure _
  | r :: rs, each => by
    simp only [Rule.occurrencesAll, List.mem_append] at each
    exact (h.substitute r fun k hk => each k (.inl hk)).bind fun _ =>
      (h.substituteAll rs fun k hk => each k (.inr hk)).bind fun _ => .of_pure _

end

theorem inlineWith (h : Invariant t p) {r : Rule}
    (each : ∀ k ∈ r.occurrences, t.isInlined k = true → Preserves p (replace k)) :
    Preserves p (Inlining.inlineWith t.isInlined replace r) := by
  apply Preserves.get_bind
  intro s hs
  have inner := h.substitute r each { s with used := ∅ } (h.used s ∅ hs)
  exact h.used _ s.used inner

/-- Every hidden name in the body of the rule at hand is met one level deeper. -/
theorem expansion (h : Invariant t p) (fuel : Nat) {stack : List String} {name : String}
    (descent : Descent t stack name) :
    Preserves p (Inlining.expansion t fuel stack name) := by
  induction fuel generalizing stack name with
  | zero => exact .of_pure _
  | succ fuel ih =>
    apply Preserves.get_bind
    intro s hs
    split
    · exact hs
    · split <;> rename_i looped
      · -- The name is on the stack, so the stack from there on is a cycle.
        exact h.reported s _ (descent.cycle (List.contains_iff_mem.1 looped)) hs
      · split
        · exact hs
        · rename_i info get
          have apart : name ∉ stack := by simpa using looped
          have inner : Preserves p (Inlining.inlineWith t.isInlined
              (Inlining.expansion t fuel (stack ++ [name])) info.body.canonicalize) := by
            apply h.inlineWith
            intro k hk hidden
            have step : RefersHidden t name k :=
              ⟨info, get, (Rule.mem_occurrences_canonicalize _).1 hk, hidden⟩
            exact ih (descent.deeper apart step)
          exact h.entered _ _ _ (inner s hs)

theorem expand (h : Invariant t p) (k : String) (hidden : t.isInlined k = true) :
    Preserves p (Inlining.expand t k) :=
  h.expansion _ (.start hidden)

theorem body (h : Invariant t p) (name : String) : Preserves p (Inlining.body t name) := by
  unfold Inlining.body
  split
  · rename_i hidden
    exact h.expand name hidden
  · split
    · exact .of_pure _
    · exact h.inlineWith fun k _ => h.expand k

theorem inlineRules (h : Invariant t p) (infos : List SymbolInfo) :
    Preserves p (NormalForm.inlineRules t infos) := by
  induction infos with
  | nil => exact .of_pure _
  | cons info infos ih => exact (h.body _).bind fun _ => ih.bind fun _ => .of_pure _

theorem inlineExtras (h : Invariant t p) (extras : List Rule) :
    Preserves p (NormalForm.inlineExtras t extras) := by
  induction extras with
  | nil => exact .of_pure _
  | cons extra extras ih =>
    exact (h.inlineWith fun k _ => h.expand k).bind fun _ => ih.bind fun _ => .of_pure _

/-- What holds at the start holds once all rules and extras have been inlined. -/
theorem extrasRun (h : Invariant t p) (g : Grammar) (start : p start) :
    p (NormalForm.extrasRun g t).2 :=
  h.inlineExtras g.extras _ (h.inlineRules t.infos _ start)

end Invariant

end Inlining

end Productions
