import Productions.Normal.Inlining

/-! What inlining computes when it reports no cycle. Each hidden rule that has been expanded holds
the canonical form of its body with the hidden names replaced by their own expansions, and the
hidden rules expanded into it can be reached from its body. -/
namespace Productions

namespace Rule

mutual

/-- Replaces hidden names, flattening sequences and choices on the way. -/
def unfoldNames (hidden : String → Bool) (expansions : String → Rule) : Rule → Rule
  | terminal t => terminal t
  | symbol name => if hidden name then expansions name else symbol name
  | seq members => makeSeq (unfoldAll hidden expansions members)
  | choice members => makeChoice (unfoldAll hidden expansions members)
  | repeated content repetition => repeated (unfoldNames hidden expansions content) repetition
  | optional content => optional (unfoldNames hidden expansions content)
  | token content immediate => token (unfoldNames hidden expansions content) immediate
  | prec value assoc content => prec value assoc (unfoldNames hidden expansions content)
  | aliased content value named => aliased (unfoldNames hidden expansions content) value named
  | field name content => field name (unfoldNames hidden expansions content)

def unfoldAll (hidden : String → Bool) (expansions : String → Rule) : List Rule → List Rule
  | [] => []
  | rule :: rules => unfoldNames hidden expansions rule :: unfoldAll hidden expansions rules

end

theorem mem_occurrencesAll {rules : List Rule} {name : String} :
    name ∈ occurrencesAll rules ↔ ∃ r ∈ rules, name ∈ r.occurrences := by
  simp [occurrencesAll_eq_flatMap]

variable {hidden : String → Bool} {E F : String → Rule}

mutual

theorem unfoldNames_congr : (r : Rule) → (∀ k ∈ r.occurrences, hidden k = true → E k = F k) →
    r.unfoldNames hidden E = r.unfoldNames hidden F
  | terminal _, _ => rfl
  | symbol name, h => by
    simp only [unfoldNames]
    split <;> rename_i hn
    · exact h name (by simp [occurrences]) hn
    · rfl
  | seq members, h | choice members, h => by
    rw [unfoldNames, unfoldNames, unfoldAll_congr members h]
  | repeated content _, h | optional content, h | token content _, h | prec _ _ content, h
  | aliased content _ _, h | field _ content, h => by
    rw [unfoldNames, unfoldNames, unfoldNames_congr content h]

theorem unfoldAll_congr : (rules : List Rule) →
    (∀ k ∈ occurrencesAll rules, hidden k = true → E k = F k) →
    unfoldAll hidden E rules = unfoldAll hidden F rules
  | [], _ => rfl
  | r :: rs, h => by
    simp only [occurrencesAll, List.mem_append] at h
    rw [unfoldAll, unfoldAll, unfoldNames_congr r fun k hk => h k (.inl hk),
      unfoldAll_congr rs fun k hk => h k (.inr hk)]

end

end Rule

namespace Inlining

variable {t : SymbolTable}

inductive Reaches (t : SymbolTable) : Rule → String → Prop where
  | here {r k} (mem : k ∈ r.occurrences) (hidden : t.isInlined k = true) : Reaches t r k
  | through {r j k info} (mem : j ∈ r.occurrences) (hidden : t.isInlined j = true)
      (get : t.get? j = some info) (rest : Reaches t info.body.canonicalize k) : Reaches t r k

theorem Reaches.of_occurrences {r s : Rule} (h : ∀ k ∈ r.occurrences, k ∈ s.occurrences)
    {k : String} (hr : Reaches t r k) : Reaches t s k := by
  cases hr with
  | here mem hidden => exact .here (h _ mem) hidden
  | through mem hidden get rest => exact .through (h _ mem) hidden get rest

def ruleIn (m : OrderedMap String Inlined) (name : String) : Rule := (m.getD name .blank).rule

theorem ruleIn_eq {m : OrderedMap String Inlined} {name : String} {inlined : Inlined}
    (h : m.get? name = some inlined) : ruleIn m name = inlined.rule := by
  simp [ruleIn, OrderedMap.getD, h]

/-- A name whose expansion, and the expansions of all hidden names in its body, are as they should
be. The derivation is finite, so hidden names that have one form no cycle. -/
inductive Expanded (t : SymbolTable) (m : OrderedMap String Inlined) : String → Prop where
  | intro {name info inlined} (get : t.get? name = some info) (entry : m.get? name = some inlined)
      (rule : inlined.rule
        = (info.body.canonicalize.unfoldNames t.isInlined (ruleIn m)).canonicalize)
      (used : ∀ k ∈ inlined.used, Reaches t info.body.canonicalize k)
      (inner : ∀ k ∈ info.body.canonicalize.occurrences, t.isInlined k = true → Expanded t m k) :
      Expanded t m name

def Extends (m m' : OrderedMap String Inlined) : Prop :=
  ∀ name inlined, m.get? name = some inlined → m'.get? name = some inlined

theorem Extends.ruleIn_eq {m m' : OrderedMap String Inlined} (h : Extends m m') {name : String}
    (known : name ∈ m.keys) : ruleIn m name = ruleIn m' name := by
  obtain ⟨inlined, entry⟩ := Option.isSome_iff_exists.1 (OrderedMap.get?_isSome_iff.2 known)
  rw [Inlining.ruleIn_eq entry, Inlining.ruleIn_eq (h _ _ entry)]

theorem Expanded.known {m : OrderedMap String Inlined} {name : String} (h : Expanded t m name) :
    name ∈ m.keys := by
  obtain ⟨_, entry, _, _, _⟩ := h
  exact OrderedMap.get?_isSome_iff.1 (by rw [entry]; rfl)

theorem Expanded.extend {m m' : OrderedMap String Inlined} (hm : Extends m m') {name : String}
    (h : Expanded t m name) : Expanded t m' name := by
  induction h with
  | intro get entry rule used inner ih =>
    refine .intro get (hm _ _ entry) ?_ used ih
    rw [rule, Rule.unfoldNames_congr _ fun k hk hidden => hm.ruleIn_eq (inner k hk hidden).known]

/-- A state whose expansions are as they should be, with none for the rules of the stack, and
without a hidden memory of reported cycles. -/
structure Ready (t : SymbolTable) (stack : List String) (s : Inlining) : Prop where
  expanded : ∀ name ∈ s.expanded.keys, Expanded t s.expanded name
  fresh : ∀ name ∈ stack, name ∉ s.expanded.keys
  quiet : s.reports = [] → ∀ cycle, cycle ∉ s.cycles

/-- What holds between the state before and after a part of the inlining. -/
structure Later (t : SymbolTable) (stack : List String) (s s' : Inlining) : Prop where
  reports : s.reports <+: s'.reports
  errors : (∀ d ∈ s.reports, d.isError = true) → ∀ d ∈ s'.reports, d.isError = true
  ready : s'.reports = [] → Ready t stack s → Ready t stack s'
  grows : s'.reports = [] → Ready t stack s → Extends s.expanded s'.expanded

theorem Later.silent {stack : List String} {s s' : Inlining} (h : Later t stack s s')
    (none : s'.reports = []) : s.reports = [] := by
  simpa [none] using h.reports

theorem Later.refl {stack : List String} (s : Inlining) : Later t stack s s :=
  ⟨List.prefix_rfl, id, fun _ h => h, fun _ _ _ _ h => h⟩

theorem Later.trans {stack : List String} {s s' s'' : Inlining} (h : Later t stack s s')
    (h' : Later t stack s' s'') : Later t stack s s'' where
  reports := h.reports.trans h'.reports
  errors := h'.errors ∘ h.errors
  ready none hs := h'.ready none (h.ready (h'.silent none) hs)
  grows none hs _ _ entry :=
    h'.grows none (h.ready (h'.silent none) hs) _ _ (h.grows (h'.silent none) hs _ _ entry)

theorem Later.of_used {stack : List String} {s s' : Inlining} (used used' : OrderedSet String)
    (h : Later t stack { s with used } { s' with used := used' }) : Later t stack s s' where
  reports := h.reports
  errors := h.errors
  ready none hs := by
    obtain ⟨e, f, q⟩ := h.ready none ⟨hs.expanded, hs.fresh, hs.quiet⟩
    exact ⟨e, f, q⟩
  grows none hs := h.grows none ⟨hs.expanded, hs.fresh, hs.quiet⟩

end Inlining

end Productions
