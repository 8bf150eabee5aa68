import Mathlib.Data.List.Perm.Subperm
import Productions.Proofs.Inlining.Substitution
import Productions.Proofs.Runs

/-! Runs of the inliner. Every part of a run only adds reports and expansions, and as long as there
is no report it computes the substitution of the expansions it leaves behind. -/
namespace Productions.Inlining

variable {t : SymbolTable} {stack : List String} {expand : String → StateM Inlining Inlined}

/-- A way to expand hidden names that keeps the expansions right while there is no report. -/
def ExpandsRight (t : SymbolTable) (stack : List String)
    (expand : String → StateM Inlining Inlined) : Prop :=
  ∀ name s inlined s', t.isInlined name = true → (expand name).run s = (inlined, s') →
    Later t stack s s' ∧ (s'.reports = [] → Ready t stack s →
      s'.expanded.get? name = some inlined ∧ s'.used = s.used
        ∧ ∀ k ∈ inlined.used, ∃ info, t.get? name = some info
            ∧ Reaches t info.body.canonicalize k)

structure Substituted (t : SymbolTable) (r : Rule) (s s' : Inlining) : Prop where
  present : ∀ k ∈ r.occurrences, t.isInlined k = true → k ∈ s'.expanded.keys
  used : ∀ k ∈ s'.used, k ∈ s.used ∨ Reaches t r k

theorem unfoldNames_extends {r : Rule} {m m' : OrderedMap String Inlined} (hm : Extends m m')
    (present : ∀ k ∈ r.occurrences, t.isInlined k = true → k ∈ m.keys) :
    r.unfoldNames t.isInlined (ruleIn m) = r.unfoldNames t.isInlined (ruleIn m') :=
  Rule.unfoldNames_congr r fun k hk hidden => hm.ruleIn_eq (present k hk hidden)

theorem Extends.known {m m' : OrderedMap String Inlined} (hm : Extends m m') {k : String}
    (hk : k ∈ m.keys) : k ∈ m'.keys := by
  obtain ⟨inlined, entry⟩ := Option.isSome_iff_exists.1 (OrderedMap.get?_isSome_iff.2 hk)
  exact OrderedMap.get?_isSome_iff.1 (by rw [hm _ _ entry]; rfl)

theorem Substituted.of_occurrences {r r' : Rule} (same : r.occurrences = r'.occurrences)
    {s s' : Inlining} (h : Substituted t r s s') : Substituted t r' s s' where
  present := same ▸ h.present
  used k hk := (h.used k hk).imp_right (Reaches.of_occurrences fun _ hj => same ▸ hj)

mutual

theorem substitute_run (hx : ExpandsRight t stack expand) : (r : Rule) →
    {s s' : Inlining} → {out : Rule} →
    (substitute t.isInlined expand r).run s = (out, s') →
    Later t stack s s' ∧ (s'.reports = [] → Ready t stack s →
      out = r.unfoldNames t.isInlined (ruleIn s'.expanded) ∧ Substituted t r s s')
  | .terminal _, s, s', out, h => by
    obtain ⟨rfl, rfl⟩ := run_pure_eq_iff.1 h
    exact ⟨.refl _, fun _ _ => ⟨rfl, by simp [Rule.occurrences], fun _ => .inl⟩⟩
  | .symbol name, s, s', out, h => by
    rw [substitute] at h
    split at h <;> rename_i hidden
    · obtain ⟨inlined, s₁, run, h⟩ := run_bind_eq_iff.1 h
      obtain ⟨_, s₂, hmodify, h⟩ := run_bind_eq_iff.1 h
      obtain rfl := run_modify_eq_iff.1 hmodify
      obtain ⟨rfl, rfl⟩ := run_pure_eq_iff.1 h
      obtain ⟨later, right⟩ := hx name s inlined s₁ hidden run
      refine ⟨.of_used s.used s₁.used later, fun none ready => ?_⟩
      obtain ⟨entry, used, reached⟩ := right none ready
      refine ⟨by simp [Rule.unfoldNames, hidden, ruleIn_eq entry], ?_, ?_⟩
      · simp only [Rule.occurrences, List.mem_singleton]
        rintro k rfl _
        exact OrderedMap.get?_isSome_iff.1 (by rw [entry]; rfl)
      · intro k hk
        simp only [OrderedSet.mem_union, OrderedSet.mem_insert, used] at hk
        rcases hk with (hk | rfl) | hk
        · exact .inl hk
        · exact .inr (.here (by simp [Rule.occurrences]) hidden)
        · obtain ⟨info, get, reaches⟩ := reached k hk
          exact .inr (.through (by simp [Rule.occurrences]) hidden get reaches)
    · obtain ⟨rfl, rfl⟩ := run_pure_eq_iff.1 h
      refine ⟨.refl _, fun _ _ => ⟨by simp [Rule.unfoldNames, hidden], ?_, fun _ => .inl⟩⟩
      simp only [Rule.occurrences, List.mem_singleton]
      rintro k rfl hk
      exact absurd hk hidden
  | .seq members, s, s', out, h => by
    obtain ⟨parts, run, rfl⟩ := run_map_eq_iff.1 h
    obtain ⟨later, right⟩ := substituteAll_run hx members run
    refine ⟨later, fun none ready => ?_⟩
    obtain ⟨rfl, done⟩ := right none ready
    exact ⟨rfl, done⟩
  | .choice members, s, s', out, h => by
    obtain ⟨parts, run, rfl⟩ := run_map_eq_iff.1 h
    obtain ⟨later, right⟩ := substituteAll_run hx members run
    refine ⟨later, fun none ready => ?_⟩
    obtain ⟨rfl, done⟩ := right none ready
    exact ⟨rfl, done.of_occurrences (by simp only [Rule.occurrences])⟩
  | .repeated content _, s, s', out, h | .optional content, s, s', out, h
  | .token content _, s, s', out, h | .prec _ _ content, s, s', out, h
  | .aliased content _ _, s, s', out, h | .field _ content, s, s', out, h => by
    rw [substitute, bind_pure_comp] at h
    obtain ⟨part, run, rfl⟩ := run_map_eq_iff.1 h
    obtain ⟨later, right⟩ := substitute_run hx content run
    refine ⟨later, fun none ready => ?_⟩
    obtain ⟨rfl, done⟩ := right none ready
    exact ⟨rfl, done.of_occurrences (by simp only [Rule.occurrences])⟩

theorem substituteAll_run (hx : ExpandsRight t stack expand) : (rules : List Rule) →
    {s s' : Inlining} → {out : List Rule} →
    (substituteAll t.isInlined expand rules).run s = (out, s') →
    Later t stack s s' ∧ (s'.reports = [] → Ready t stack s →
      out = Rule.unfoldAll t.isInlined (ruleIn s'.expanded) rules
        ∧ Substituted t (.seq rules) s s')
  | [], s, s', out, h => by
    obtain ⟨rfl, rfl⟩ := run_pure_eq_iff.1 h
    exact ⟨.refl _, fun _ _ => ⟨rfl, by simp [Rule.occurrences, Rule.occurrencesAll],
      fun _ => .inl⟩⟩
  | r :: rs, s, s'', out, h => by
    obtain ⟨first, s', hfirst, h⟩ := run_bind_eq_iff.1 h
    obtain ⟨rest, _, hrest, h⟩ := run_bind_eq_iff.1 h
    obtain ⟨rfl, rfl⟩ := run_pure_eq_iff.1 h
    obtain ⟨later, right⟩ := substitute_run hx r hfirst
    obtain ⟨laterRest, rightRest⟩ := substituteAll_run hx rs hrest
    refine ⟨later.trans laterRest, fun none ready => ?_⟩
    have noneFirst := laterRest.silent none
    have readyRest := later.ready noneFirst ready
    obtain ⟨rfl, done⟩ := right noneFirst ready
    obtain ⟨rfl, doneRest⟩ := rightRest none readyRest
    have grows := laterRest.grows none readyRest
    refine ⟨?_, ?_, ?_⟩
    · rw [Rule.unfoldAll, unfoldNames_extends grows done.present]
    · intro k hk hidden
      simp only [Rule.occurrences, Rule.occurrencesAll, List.mem_append] at hk
      rcases hk with hk | hk
      · exact grows.known (done.present k hk hidden)
      · exact doneRest.present k hk hidden
    · intro k hk
      rcases doneRest.used k hk with hk | hk
      · exact (done.used k hk).imp_right (Reaches.of_occurrences fun j hj => by
          simp [Rule.occurrences, Rule.occurrencesAll, hj])
      · exact .inr (hk.of_occurrences fun j hj => by
          simp only [Rule.occurrences] at hj
          simp [Rule.occurrences, Rule.occurrencesAll, hj])

end

/-- One rule is inlined: its hidden names are replaced, and the memory of used rules is restored. -/
theorem inlineWith_run (hx : ExpandsRight t stack expand) {r : Rule} {s s' : Inlining}
    {inlined : Inlined} (h : (inlineWith t.isInlined expand r).run s = (inlined, s')) :
    Later t stack s s' ∧ (s'.reports = [] → Ready t stack s →
      s'.used = s.used
        ∧ inlined.rule = (r.unfoldNames t.isInlined (ruleIn s'.expanded)).canonicalize
        ∧ (∀ k ∈ r.occurrences, t.isInlined k = true → k ∈ s'.expanded.keys)
        ∧ ∀ k ∈ inlined.used, Reaches t r k) := by
  obtain ⟨outer, s₁, hget, h⟩ := run_bind_eq_iff.1 h
  obtain ⟨rfl, rfl⟩ := run_get_eq_iff.1 hget
  obtain ⟨_, s₂, hset, h⟩ := run_bind_eq_iff.1 h
  obtain rfl := run_set_eq_iff.1 hset
  obtain ⟨inner, s₃, run, h⟩ := run_bind_eq_iff.1 h
  obtain ⟨after, s₄, hget, h⟩ := run_bind_eq_iff.1 h
  obtain ⟨rfl, rfl⟩ := run_get_eq_iff.1 hget
  obtain ⟨_, s₅, hset, h⟩ := run_bind_eq_iff.1 h
  obtain rfl := run_set_eq_iff.1 hset
  obtain ⟨rfl, rfl⟩ := run_pure_eq_iff.1 h
  obtain ⟨later, right⟩ := substitute_run hx r run
  refine ⟨.of_used ∅ s₃.used later, fun none ready => ?_⟩
  obtain ⟨rfl, done⟩ := right none ⟨ready.expanded, ready.fresh, ready.quiet⟩
  refine ⟨rfl, rfl, done.present, fun k hk => ?_⟩
  rcases done.used k hk with hk | hk
  · cases hk
  · exact hk

theorem exists_of_isInlined {name : String} (h : t.isInlined name = true) :
    ∃ info, t.get? name = some info ∧ info.kind = .hidden := by
  simp only [SymbolTable.isInlined, SymbolTable.kind?, beq_iff_eq, Option.map_eq_some_iff] at h
  exact h

theorem size_eq (t : SymbolTable) : t.size = t.rules.keys.length := by
  simp [SymbolTable.size, OrderedMap.size, OrderedMap.keys]

theorem stack_length_le (nodup : stack.Nodup) (known : ∀ k ∈ stack, k ∈ t.rules.keys) :
    stack.length ≤ t.size :=
  size_eq t ▸ (List.subperm_of_subset nodup known).length_le

theorem ready_of_cycle {s : Inlining} (ready : Ready t stack s) {cycle : List String} :
    (reportCycle cycle s).reports ≠ [] := by
  simp only [reportCycle]
  split <;> rename_i known
  · exact fun none => ready.quiet none _ (OrderedSet.contains_iff.1 known)
  · simp

/-- A cycle is reported, or has been reported before. -/
theorem later_of_cycle (cycle : List String) (s : Inlining) :
    Later t stack s (reportCycle cycle s) where
  reports := by
    simp only [reportCycle]
    split
    · exact List.prefix_rfl
    · exact List.prefix_append _ _
  errors old := by
    simp only [reportCycle]
    split
    · exact old
    · intro d hd
      rcases List.mem_append.1 hd with hd | hd
      · exact old d hd
      · rw [List.mem_singleton.1 hd]
        rfl
  ready none ready := absurd none (ready_of_cycle ready)
  grows none ready := absurd none (ready_of_cycle ready)

/-- The expansion of a rule is entered once all hidden names in its body have been expanded. -/
theorem later_of_entry {s s' : Inlining} {name : String} {info : SymbolInfo} {inlined : Inlined}
    (get : t.get? name = some info) (fresh : name ∉ s.expanded.keys) (apart : name ∉ stack)
    (later : Later t (stack ++ [name]) s s')
    (right : s'.reports = [] → Ready t stack s →
      inlined.rule
          = (info.body.canonicalize.unfoldNames t.isInlined (ruleIn s'.expanded)).canonicalize
        ∧ (∀ k ∈ info.body.canonicalize.occurrences, t.isInlined k = true → k ∈ s'.expanded.keys)
        ∧ ∀ k ∈ inlined.used, Reaches t info.body.canonicalize k) :
    Later t stack s { s' with expanded := s'.expanded.insert name inlined } := by
  have start : Ready t stack s → Ready t (stack ++ [name]) s := fun ready => by
    refine ⟨ready.expanded, fun k hk => ?_, ready.quiet⟩
    simp only [List.mem_append, List.mem_singleton] at hk
    rcases hk with hk | rfl
    · exact ready.fresh k hk
    · exact fresh
  have extends_ : s'.reports = [] → Ready t stack s →
      Extends s'.expanded (s'.expanded.insert name inlined) := fun none ready k other entry => by
    have absent := (later.ready none (start ready)).fresh name (by simp)
    rw [OrderedMap.get?_insert, if_neg, entry]
    rintro rfl
    exact absent (OrderedMap.get?_isSome_iff.1 (by rw [entry]; rfl))
  refine ⟨later.reports, later.errors, fun none ready => ?_, fun none ready => ?_⟩
  · have ready' := later.ready none (start ready)
    obtain ⟨rule, present, used⟩ := right none ready
    refine ⟨fun k hk => ?_, fun k hk => ?_, ready'.quiet⟩
    · rcases OrderedMap.mem_keys_insert.1 hk with hk | rfl
      · exact (ready'.expanded k hk).extend (extends_ none ready)
      · refine .intro get (by rw [OrderedMap.get?_insert, if_pos rfl]) ?_ used fun j hj hidden =>
          (ready'.expanded j (present j hj hidden)).extend (extends_ none ready)
        rw [rule, unfoldNames_extends (extends_ none ready) present]
    · rw [OrderedMap.mem_keys_insert, not_or]
      exact ⟨ready'.fresh k (by simp [hk]), fun e => apart (e ▸ hk)⟩
  · intro k other entry
    exact extends_ none ready _ _ (later.grows none (start ready) _ _ entry)

/-- The number of rules bounds the stack, so the expansion never runs out of fuel. -/
theorem expansion_run : (fuel : Nat) → {stack : List String} → stack.Nodup →
    (∀ k ∈ stack, k ∈ t.rules.keys) → t.size < fuel + stack.length →
    ExpandsRight t stack (expansion t fuel stack)
  | 0, stack, nodup, known, enough => by
    have := stack_length_le nodup known
    omega
  | fuel + 1, stack, nodup, known, enough => by
    intro name s inlined s'' hidden h
    obtain ⟨info, get, -⟩ := exists_of_isInlined hidden
    obtain ⟨_, _, hget, h⟩ := run_bind_eq_iff.1 h
    obtain ⟨rfl, rfl⟩ := run_get_eq_iff.1 hget
    split at h
    · rename_i found entry
      obtain ⟨rfl, rfl⟩ := run_pure_eq_iff.1 h
      refine ⟨.refl _, fun _ ready => ⟨entry, rfl, fun k hk => ?_⟩⟩
      obtain ⟨get', entry', -, used, -⟩ :=
        ready.expanded name (OrderedMap.get?_isSome_iff.1 (by rw [entry]; rfl))
      obtain rfl := Option.some.inj (entry'.symm.trans entry)
      exact ⟨_, get', used k hk⟩
    · rename_i entry
      split at h <;> rename_i looped
      · obtain ⟨_, s', hmodify, h⟩ := run_bind_eq_iff.1 h
        obtain rfl := run_modify_eq_iff.1 hmodify
        obtain ⟨rfl, rfl⟩ := run_pure_eq_iff.1 h
        exact ⟨later_of_cycle _ _, fun none ready => absurd none (ready_of_cycle ready)⟩
      · have apart : name ∉ stack := by simpa using looped
        have fresh : name ∉ s.expanded.keys := OrderedMap.get?_eq_none_iff.1 entry
        rw [get] at h
        obtain ⟨inner, s', run, h⟩ := run_bind_eq_iff.1 h
        obtain ⟨_, _, hmodify, h⟩ := run_bind_eq_iff.1 h
        obtain rfl := run_modify_eq_iff.1 hmodify
        obtain ⟨rfl, rfl⟩ := run_pure_eq_iff.1 h
        have deeper : ExpandsRight t (stack ++ [name]) (expansion t fuel (stack ++ [name])) := by
          refine expansion_run fuel ?_ ?_ ?_
          · exact List.nodup_append.2 ⟨nodup, by simp, by
              rintro k hk _ hj rfl
              exact apart (List.mem_singleton.1 hj ▸ hk)⟩
          · intro k hk
            simp only [List.mem_append, List.mem_singleton] at hk
            rcases hk with hk | rfl
            · exact known k hk
            · exact OrderedMap.get?_isSome_iff.1 (by rw [← SymbolTable.get?, get]; rfl)
          · simp only [List.length_append, List.length_singleton]
            omega
        obtain ⟨later, right⟩ := inlineWith_run deeper run
        have start : Ready t stack s → Ready t (stack ++ [name]) s := fun ready => by
          refine ⟨ready.expanded, fun k hk => ?_, ready.quiet⟩
          simp only [List.mem_append, List.mem_singleton] at hk
          rcases hk with hk | rfl
          · exact ready.fresh k hk
          · exact fresh
        refine ⟨later_of_entry get fresh apart later fun none ready =>
          (right none (start ready)).2, fun none ready => ?_⟩
        obtain ⟨used, -, -, reached⟩ := right none (start ready)
        exact ⟨by rw [OrderedMap.get?_insert, if_pos rfl], used,
          fun k hk => ⟨info, get, reached k hk⟩⟩

theorem expand_run (t : SymbolTable) : ExpandsRight t [] (Inlining.expand t) :=
  expansion_run _ List.nodup_nil (by simp) (by simp)

end Productions.Inlining
