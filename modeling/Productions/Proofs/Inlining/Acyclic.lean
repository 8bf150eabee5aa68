import Productions.Proofs.Normal.Structure

/-! Inlining where no hidden rule refers back to itself. Nothing is reported, and the hidden rules
that are remembered as used are all those that can be reached. -/
namespace Productions

namespace Inlining

open Relation

variable {t : SymbolTable} {stack : List String} {expand : String → StateM Inlining Inlined}
  {r : Rule} {k : String}

def HiddenStep (t : SymbolTable) (a b : String) : Prop :=
  ∃ info, t.get? a = some info ∧ b ∈ info.body.canonicalize.occurrences ∧ t.isInlined b = true

/-- The body of a rule, as it was written, refers to a hidden rule. -/
def RefersHidden (t : SymbolTable) (a b : String) : Prop :=
  ∃ info, t.get? a = some info ∧ b ∈ info.body.occurrences ∧ t.isInlined b = true

theorem hiddenStep_eq_refersHidden : HiddenStep t = RefersHidden t := by
  funext a b
  simp only [HiddenStep, RefersHidden, Rule.mem_occurrences_canonicalize]

def Acyclic (t : SymbolTable) : Prop := ∀ a, ¬ TransGen (HiddenStep t) a a

theorem reaches_iff : Reaches t r k
    ↔ ∃ j ∈ r.occurrences, t.isInlined j = true ∧ ReflTransGen (HiddenStep t) j k := by
  constructor
  · intro h
    induction h with
    | @here r k mem hidden => exact ⟨k, mem, hidden, .refl⟩
    | @through r j k info mem hidden get _ ih =>
      obtain ⟨i, mem', hidden', path⟩ := ih
      exact ⟨j, mem, hidden, .head ⟨info, get, mem', hidden'⟩ path⟩
  · rintro ⟨j, mem, hidden, path⟩
    induction path using ReflTransGen.head_induction_on generalizing r with
    | refl => exact .here mem hidden
    | head step _ ih =>
      obtain ⟨info, get, mem', hidden'⟩ := step
      exact .through mem hidden get (ih mem' hidden')

/-- What the body of a rule reaches is what the rule leads to. -/
theorem reaches_body_iff {name : String} {info : SymbolInfo} (get : t.get? name = some info) :
    Reaches t info.body.canonicalize k ↔ TransGen (HiddenStep t) name k := by
  rw [reaches_iff, TransGen.head'_iff]
  constructor
  · rintro ⟨j, mem, hidden, path⟩
    exact ⟨j, ⟨info, get, mem, hidden⟩, path⟩
  · rintro ⟨j, ⟨info', get', mem, hidden⟩, path⟩
    obtain rfl := Option.some.inj (get'.symm.trans get)
    exact ⟨j, mem, hidden, path⟩

/-- An expansion is derived in finitely many steps, so it does not lead back to itself. -/
theorem Expanded.not_cycle {m : OrderedMap String Inlined} {name : String}
    (h : Expanded t m name) : ¬ TransGen (HiddenStep t) name name := by
  induction h with
  | @intro name info inlined get entry rule used inner ih =>
    intro cycle
    obtain ⟨j, step, path⟩ := TransGen.head'_iff.1 cycle
    obtain ⟨info', get', mem, hidden⟩ := id step
    obtain rfl := Option.some.inj (get'.symm.trans get)
    exact ih j mem hidden (TransGen.tail' path step)

theorem acyclic_of_expanded {m : OrderedMap String Inlined}
    (h : ∀ name, t.isInlined name = true → Expanded t m name) : Acyclic t := by
  intro a cycle
  obtain ⟨_, -, info, get, mem, hidden⟩ := TransGen.tail'_iff.1 cycle
  exact (h a hidden).not_cycle cycle

/-- Every expansion remembers all that its rule leads to. -/
def Full (t : SymbolTable) (m : OrderedMap String Inlined) : Prop :=
  ∀ name inlined, m.get? name = some inlined →
    ∀ k, TransGen (HiddenStep t) name k → k ∈ inlined.used

def ExpandsFully (t : SymbolTable) (stack : List String)
    (expand : String → StateM Inlining Inlined) : Prop :=
  ∀ name s inlined s', t.isInlined name = true → (∀ x ∈ stack, TransGen (HiddenStep t) x name) →
    (expand name).run s = (inlined, s') → Full t s.expanded →
    s'.reports = s.reports ∧ s'.used = s.used ∧ Full t s'.expanded
      ∧ ∀ k, TransGen (HiddenStep t) name k → k ∈ inlined.used

structure Collects (t : SymbolTable) (r : Rule) (s s' : Inlining) : Prop where
  reports : s'.reports = s.reports
  full : Full t s'.expanded
  kept : ∀ k ∈ s.used, k ∈ s'.used
  used : ∀ k, Reaches t r k → k ∈ s'.used

theorem Collects.of_occurrences {r' : Rule} (same : r.occurrences = r'.occurrences)
    {s s' : Inlining} (h : Collects t r s s') : Collects t r' s s' :=
  { h with used := fun k hk => h.used k (hk.of_occurrences fun _ hj => same ▸ hj) }

def Hangs (t : SymbolTable) (stack : List String) (r : Rule) : Prop :=
  ∀ j ∈ r.occurrences, t.isInlined j = true → ∀ x ∈ stack, TransGen (HiddenStep t) x j

mutual

theorem substitute_collects (hx : ExpandsFully t stack expand) : (r : Rule) → Hangs t stack r →
    {s s' : Inlining} → {out : Rule} →
    (substitute t.isInlined expand r).run s = (out, s') → Full t s.expanded → Collects t r s s'
  | .terminal _, _, s, s', out, h, full => by
    obtain ⟨-, rfl⟩ := run_pure_eq_iff.1 h
    refine ⟨rfl, full, fun _ hk => hk, fun k reached => ?_⟩
    obtain ⟨j, mem, -⟩ := reaches_iff.1 reached
    cases mem
  | .symbol name, hangs, s, s', out, h, full => by
    rw [substitute] at h
    split at h <;> rename_i hidden
    · obtain ⟨inlined, s₁, run, h⟩ := run_bind_eq_iff.1 h
      obtain ⟨_, s₂, hmodify, h⟩ := run_bind_eq_iff.1 h
      obtain rfl := run_modify_eq_iff.1 hmodify
      obtain ⟨-, rfl⟩ := run_pure_eq_iff.1 h
      obtain ⟨reports, used, full, all⟩ :=
        hx name s inlined s₁ hidden (hangs name (by simp [Rule.occurrences]) hidden) run full
      refine ⟨reports, full, fun k hk => ?_, fun k reached => ?_⟩
      · exact OrderedSet.mem_union.2 (.inl (OrderedSet.mem_insert.2 (.inl (used ▸ hk))))
      · obtain ⟨j, mem, -, path⟩ := reaches_iff.1 reached
        obtain rfl := List.mem_singleton.1 mem
        rcases reflTransGen_iff_eq_or_transGen.1 path with rfl | path
        · exact OrderedSet.mem_union.2 (.inl (OrderedSet.mem_insert.2 (.inr rfl)))
        · exact OrderedSet.mem_union.2 (.inr (all k path))
    · obtain ⟨-, rfl⟩ := run_pure_eq_iff.1 h
      refine ⟨rfl, full, fun _ hk => hk, fun k reached => ?_⟩
      obtain ⟨j, mem, hidden', -⟩ := reaches_iff.1 reached
      obtain rfl := List.mem_singleton.1 mem
      exact absurd hidden' hidden
  | .seq members, hangs, s, s', out, h, full => by
    obtain ⟨parts, run, -⟩ := run_map_eq_iff.1 h
    exact substituteAll_collects hx members hangs run full
  | .choice members, hangs, s, s', out, h, full => by
    obtain ⟨parts, run, -⟩ := run_map_eq_iff.1 h
    exact (substituteAll_collects hx members hangs run full).of_occurrences
      (by simp only [Rule.occurrences])
  | .repeated content _, hangs, s, s', out, h, full
  | .optional content, hangs, s, s', out, h, full
  | .token content _, hangs, s, s', out, h, full
  | .prec _ _ content, hangs, s, s', out, h, full
  | .aliased content _ _, hangs, s, s', out, h, full
  | .field _ content, hangs, s, s', out, h, full => by
    rw [substitute, bind_pure_comp] at h
    obtain ⟨part, run, -⟩ := run_map_eq_iff.1 h
    exact (substitute_collects hx content hangs run full).of_occurrences
      (by simp only [Rule.occurrences])

theorem substituteAll_collects (hx : ExpandsFully t stack expand) : (rules : List Rule) →
    Hangs t stack (.seq rules) → {s s' : Inlining} → {out : List Rule} →
    (substituteAll t.isInlined expand rules).run s = (out, s') → Full t s.expanded →
    Collects t (.seq rules) s s'
  | [], _, s, s', out, h, full => by
    obtain ⟨-, rfl⟩ := run_pure_eq_iff.1 h
    refine ⟨rfl, full, fun _ hk => hk, fun k reached => ?_⟩
    obtain ⟨j, mem, -⟩ := reaches_iff.1 reached
    cases mem
  | r :: rs, hangs, s, s', out, h, full => by
    obtain ⟨first, s₁, hfirst, h⟩ := run_bind_eq_iff.1 h
    obtain ⟨rest, s₂, hrest, h⟩ := run_bind_eq_iff.1 h
    obtain ⟨-, rfl⟩ := run_pure_eq_iff.1 h
    have head := substitute_collects hx r
      (fun j hj => hangs j (List.mem_append.2 (.inl hj))) hfirst full
    have tail := substituteAll_collects hx rs
      (fun j hj => hangs j (List.mem_append.2 (.inr hj))) hrest head.full
    refine ⟨tail.reports.trans head.reports, tail.full, fun k hk => tail.kept k (head.kept k hk),
      fun k reached => ?_⟩
    obtain ⟨j, mem, hidden, path⟩ := reaches_iff.1 reached
    rcases List.mem_append.1 mem with mem | mem
    · exact tail.kept k (head.used k (reaches_iff.2 ⟨j, mem, hidden, path⟩))
    · exact tail.used k (reaches_iff.2 ⟨j, mem, hidden, path⟩)

end

theorem inlineWith_collects (hx : ExpandsFully t stack expand) (hangs : Hangs t stack r)
    {s s' : Inlining} {inlined : Inlined}
    (h : (inlineWith t.isInlined expand r).run s = (inlined, s')) (full : Full t s.expanded) :
    s'.reports = s.reports ∧ s'.used = s.used ∧ Full t s'.expanded
      ∧ ∀ k, Reaches t r k → k ∈ inlined.used := by
  obtain ⟨outer, s₁, hget, h⟩ := run_bind_eq_iff.1 h
  obtain ⟨rfl, rfl⟩ := run_get_eq_iff.1 hget
  obtain ⟨_, s₂, hset, h⟩ := run_bind_eq_iff.1 h
  obtain rfl := run_set_eq_iff.1 hset
  obtain ⟨inner, s₃, run, h⟩ := run_bind_eq_iff.1 h
  obtain ⟨after, s₄, hget, h⟩ := run_bind_eq_iff.1 h
  obtain ⟨rfl, rfl⟩ := run_get_eq_iff.1 hget
  obtain ⟨_, s₅, hset, h⟩ := run_bind_eq_iff.1 h
  obtain rfl := run_set_eq_iff.1 hset
  obtain ⟨rfl, rfl⟩ := run_pure_eq_iff.1 h
  obtain ⟨reports, full, -, used⟩ := substitute_collects hx r hangs run full
  exact ⟨reports, rfl, full, used⟩

/-- The rules of the stack lead to each other and to the name at hand, so without cycles they are
distinct, and the expansion never runs out of fuel. -/
theorem expansion_collects (acyclic : Acyclic t) : (fuel : Nat) → {stack : List String} →
    stack.Nodup → (∀ x ∈ stack, x ∈ t.rules.keys) → t.size < fuel + stack.length →
    ExpandsFully t stack (expansion t fuel stack)
  | 0, stack, nodup, known, enough => by
    have := stack_length_le nodup known
    omega
  | fuel + 1, stack, nodup, known, enough => by
    intro name s inlined s' hidden leads h full
    obtain ⟨info, get, -⟩ := exists_of_isInlined hidden
    have apart : name ∉ stack := fun mem => acyclic name (leads name mem)
    obtain ⟨_, _, hget, h⟩ := run_bind_eq_iff.1 h
    obtain ⟨rfl, rfl⟩ := run_get_eq_iff.1 hget
    split at h
    · rename_i found entry
      obtain ⟨rfl, rfl⟩ := run_pure_eq_iff.1 h
      exact ⟨rfl, rfl, full, full name _ entry⟩
    · rw [if_neg (by simpa using apart), get] at h
      obtain ⟨inner, s₁, run, h⟩ := run_bind_eq_iff.1 h
      obtain ⟨_, _, hmodify, h⟩ := run_bind_eq_iff.1 h
      obtain rfl := run_modify_eq_iff.1 hmodify
      obtain ⟨rfl, rfl⟩ := run_pure_eq_iff.1 h
      have deeper : ExpandsFully t (stack ++ [name]) (expansion t fuel (stack ++ [name])) := by
        refine expansion_collects acyclic fuel ?_ ?_ ?_
        · exact List.nodup_append.2 ⟨nodup, by simp, by
            rintro x hx _ hy rfl
            exact apart (List.mem_singleton.1 hy ▸ hx)⟩
        · intro x hx
          rcases List.mem_append.1 hx with hx | hx
          · exact known x hx
          · rw [List.mem_singleton.1 hx]
            exact OrderedMap.get?_isSome_iff.1 (by rw [← SymbolTable.get?, get]; rfl)
        · simp only [List.length_append, List.length_singleton]
          omega
      have hangs : Hangs t (stack ++ [name]) info.body.canonicalize := by
        intro j mem hidden' x hx
        have step : HiddenStep t name j := ⟨info, get, mem, hidden'⟩
        rcases List.mem_append.1 hx with hx | hx
        · exact (leads x hx).tail step
        · exact List.mem_singleton.1 hx ▸ .single step
      obtain ⟨reports, used, full, all⟩ := inlineWith_collects deeper hangs run full
      have all' : ∀ k, TransGen (HiddenStep t) name k → k ∈ inner.used :=
        fun k path => all k ((reaches_body_iff get).2 path)
      refine ⟨reports, used, fun other found entry k path => ?_, all'⟩
      rw [OrderedMap.get?_insert] at entry
      split at entry
      · rename_i same
        cases entry
        exact all' k (same ▸ path)
      · exact full other found entry k path

theorem expand_collects (acyclic : Acyclic t) : ExpandsFully t [] (Inlining.expand t) :=
  expansion_collects acyclic _ List.nodup_nil (by simp) (by simp)

theorem inline_collects (acyclic : Acyclic t) {s s' : Inlining} {inlined : Inlined}
    (h : (inline t r).run s = (inlined, s')) (full : Full t s.expanded) :
    s'.reports = s.reports ∧ Full t s'.expanded ∧ ∀ k, Reaches t r k → k ∈ inlined.used := by
  obtain ⟨reports, -, full, used⟩ :=
    inlineWith_collects (expand_collects acyclic) (by simp [Hangs]) h full
  exact ⟨reports, full, used⟩

theorem body_collects (acyclic : Acyclic t) {name : String} {info : SymbolInfo}
    (get : t.get? name = some info) {s s' : Inlining} {inlined : Inlined}
    (h : (body t name).run s = (inlined, s')) (full : Full t s.expanded) :
    s'.reports = s.reports ∧ Full t s'.expanded
      ∧ ∀ k, TransGen (HiddenStep t) name k → k ∈ inlined.used := by
  unfold body at h
  split at h
  · rename_i hidden
    obtain ⟨reports, -, full, used⟩ :=
      expand_collects acyclic name s inlined s' hidden (by simp) h full
    exact ⟨reports, full, used⟩
  · rw [get] at h
    obtain ⟨reports, full, used⟩ := inline_collects acyclic h full
    exact ⟨reports, full, fun k path => used k ((reaches_body_iff get).2 path)⟩

end Inlining

namespace NormalForm

open Inlining Relation

variable {t : SymbolTable}

theorem inlineRules_collects (acyclic : Acyclic t) {infos : List SymbolInfo}
    (named : ∀ info ∈ infos, t.get? info.name = some info) {s s' : Inlining}
    {rules : List (String × Inlined)} (h : (inlineRules t infos).run s = (rules, s'))
    (full : Full t s.expanded) : s'.reports = s.reports ∧ Full t s'.expanded
      ∧ ∀ e ∈ rules, ∀ k, TransGen (HiddenStep t) e.1 k → k ∈ e.2.used := by
  induction infos generalizing s rules with
  | nil =>
    obtain ⟨rfl, rfl⟩ := run_pure_eq_iff.1 h
    exact ⟨rfl, full, by simp⟩
  | cons info infos ih =>
    obtain ⟨inlined, s₁, first, h⟩ := run_bind_eq_iff.1 h
    obtain ⟨rest, s₂, run, h⟩ := run_bind_eq_iff.1 h
    obtain ⟨rfl, rfl⟩ := run_pure_eq_iff.1 h
    obtain ⟨reports, full, used⟩ := body_collects acyclic (named info (by simp)) first full
    obtain ⟨reports', full, used'⟩ := ih (fun i hi => named i (by simp [hi])) run full
    refine ⟨reports'.trans reports, full, fun e he => ?_⟩
    rcases List.mem_cons.1 he with rfl | he
    · exact used
    · exact used' e he

theorem inlineExtras_collects (acyclic : Acyclic t) {extras : List Rule} {s s' : Inlining}
    {out : List Rule} (h : (inlineExtras t extras).run s = (out, s')) (full : Full t s.expanded) :
    s'.reports = s.reports := by
  induction extras generalizing s out with
  | nil => rw [(run_pure_eq_iff.1 h).2]
  | cons extra extras ih =>
    obtain ⟨inlined, s₁, first, h⟩ := run_bind_eq_iff.1 h
    obtain ⟨rest, s₂, run, h⟩ := run_bind_eq_iff.1 h
    obtain ⟨-, rfl⟩ := run_pure_eq_iff.1 h
    obtain ⟨reports, full, -⟩ := inline_collects acyclic first full
    exact (ih run full).trans reports

variable {g : Grammar} (keyed : t.Keyed)

include keyed

theorem inlineRun_collects (acyclic : Acyclic t) :
    (inlineRun t).2.reports = [] ∧ Full t (inlineRun t).2.expanded
      ∧ ∀ e ∈ (inlineRun t).1, ∀ k, TransGen (HiddenStep t) e.1 k → k ∈ e.2.used :=
  inlineRules_collects acyclic (fun _ => keyed.get?_name)
    (show (inlineRules t t.infos).run Inlining.start = ((inlineRun t).1, (inlineRun t).2) from rfl)
    fun _ _ entry => by cases entry

/-- Without cycles of hidden rules nothing is reported while rules and extras are inlined. -/
theorem quiet_of_acyclic (acyclic : Acyclic t) : (extrasRun g t).2.reports = [] := by
  obtain ⟨reports, full, -⟩ := inlineRun_collects keyed acyclic
  exact (inlineExtras_collects acyclic (show (inlineExtras t g.extras).run (inlineRun t).2
    = ((extrasRun g t).1, (extrasRun g t).2) from rfl) full).trans reports

theorem acyclic_of_quiet (quiet : (extrasRun g t).2.reports = []) : Acyclic t :=
  acyclic_of_expanded fun _ hidden => expanded_of_isInlined keyed quiet hidden

/-- The hidden rules used in a rule are those that it leads to. -/
theorem mem_used_iff (quiet : (extrasRun g t).2.reports = []) {name : String} {info : SymbolInfo}
    (get : t.get? name = some info) {inlined : Inlined}
    (entry : (inlinedRules t).get? name = some inlined) (k : String) :
    k ∈ inlined.used ↔ TransGen (HiddenStep t) name k := by
  constructor
  · obtain ⟨_, entry', by_, -⟩ := exists_inlined keyed quiet get
    obtain rfl := Option.some.inj (entry'.symm.trans entry)
    exact fun used => (reaches_body_iff get).1 (by_.used k used)
  · obtain ⟨-, -, all⟩ := inlineRun_collects keyed (acyclic_of_quiet keyed quiet)
    rw [inlinedRules, OrderedMap.get?_ofList (nodup_inlineRun keyed)] at entry
    exact all (name, inlined) ((OrderedMap.get?_eq_some_iff
      (m := ⟨(inlineRun t).1, nodup_inlineRun keyed⟩)).1 entry) k

end NormalForm

end Productions
