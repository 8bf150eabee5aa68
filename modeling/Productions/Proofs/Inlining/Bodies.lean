import Productions.Normal.OfGrammar
import Productions.Proofs.Derivation.Reading
import Productions.Proofs.Inlining.Run

/-! The rules that inlining leaves. They are canonical forms without hidden names, and under any
reading in which hidden names stand for their bodies they have the language they had before. -/
namespace Productions

namespace Rule

theorem mem_occurrences_makeSeq {rules : List Rule} {k : String} :
    k ∈ (makeSeq rules).occurrences ↔ ∃ r ∈ rules, k ∈ r.occurrences := by
  have flat : (∃ part ∈ rules.flatMap seqParts, k ∈ part.occurrences)
      ↔ ∃ r ∈ rules, k ∈ r.occurrences :=
    exists_mem_parts_iff fun r => by
      cases r <;> simp [seqParts, occurrences, occurrencesAll_eq_flatMap]
  rw [← flat]
  unfold makeSeq
  split
  · rename_i r h
    simp [h]
  · rw [occurrences, mem_occurrencesAll]

theorem mem_occurrences_makeChoice {rules : List Rule} {k : String} :
    k ∈ (makeChoice rules).occurrences ↔ ∃ r ∈ rules, k ∈ r.occurrences := by
  have flat : (∃ part ∈ (OrderedSet.ofList (rules.flatMap choiceParts)).toList,
      k ∈ part.occurrences) ↔ ∃ r ∈ rules, k ∈ r.occurrences :=
    exists_part_iff fun r => by
      cases r <;> simp [choiceParts, occurrences, occurrencesAll_eq_flatMap]
  rw [← flat]
  unfold makeChoice
  split
  · rename_i r h
    simp [h]
  · rw [occurrences, mem_occurrencesAll]

theorem occurrences_makeToken (immediate : Bool) (r : Rule) :
    (makeToken immediate r).occurrences = r.occurrences := by
  cases r <;> simp [makeToken, occurrences]

theorem mem_occurrences_makeRepeated {r : Rule} {repetition : Repetition} {k : String} :
    k ∈ (makeRepeated r repetition).occurrences ↔ k ∈ r.occurrences := by
  cases repetition
  · simp [makeRepeated, occurrences]
  · rw [makeRepeated, mem_occurrences_makeSeq]
    simp [occurrences]

mutual

theorem mem_occurrences_canonicalize {k : String} : (r : Rule) →
    (k ∈ r.canonicalize.occurrences ↔ k ∈ r.occurrences)
  | terminal _ | symbol _ => Iff.rfl
  | seq rules => by
    rw [canonicalize, mem_occurrences_makeSeq, occurrences, ← mem_occurrencesAll,
      mem_occurrencesAll_canonicalizeAll rules]
  | choice rules => by
    rw [canonicalize, mem_occurrences_makeChoice, occurrences, ← mem_occurrencesAll,
      mem_occurrencesAll_canonicalizeAll rules]
  | optional content => by
    rw [canonicalize, mem_occurrences_makeChoice, occurrences,
      ← mem_occurrences_canonicalize content]
    simp [blank, occurrences, occurrencesAll]
  | repeated content _ => by
    rw [canonicalize, mem_occurrences_makeRepeated, occurrences,
      mem_occurrences_canonicalize content]
  | token content _ => by
    rw [canonicalize, occurrences_makeToken, occurrences, mem_occurrences_canonicalize content]
  | prec _ _ content | aliased content _ _ | field _ content => by
    rw [canonicalize, occurrences, occurrences, mem_occurrences_canonicalize content]

theorem mem_occurrencesAll_canonicalizeAll {k : String} : (rules : List Rule) →
    (k ∈ occurrencesAll (canonicalizeAll rules) ↔ k ∈ occurrencesAll rules)
  | [] => Iff.rfl
  | r :: rs => by
    rw [canonicalizeAll, occurrencesAll, occurrencesAll, List.mem_append, List.mem_append,
      mem_occurrences_canonicalize r, mem_occurrencesAll_canonicalizeAll rs]

end

variable {hidden : String → Bool} {expansions : String → Rule}

theorem unfoldAll_eq_map (rules : List Rule) :
    unfoldAll hidden expansions rules = rules.map (unfoldNames hidden expansions) := by
  induction rules with
  | nil => rfl
  | cons r rs ih => rw [unfoldAll, ih, List.map_cons]

mutual

/-- A name that is left is an old one that is not hidden, or comes from an expansion. -/
theorem mem_occurrences_unfoldNames {k : String} : (r : Rule) →
    k ∈ (r.unfoldNames hidden expansions).occurrences →
    (k ∈ r.occurrences ∧ hidden k = false)
      ∨ ∃ j ∈ r.occurrences, hidden j = true ∧ k ∈ (expansions j).occurrences
  | terminal _, h => absurd h (by simp [unfoldNames, occurrences])
  | symbol name, h => by
    rw [unfoldNames] at h
    by_cases hn : hidden name = true
    · rw [if_pos hn] at h
      exact .inr ⟨name, by simp [occurrences], hn, h⟩
    · rw [if_neg hn] at h
      obtain rfl : k = name := by simpa [occurrences] using h
      exact .inl ⟨h, by simpa using hn⟩
  | seq rules, h => by
    rw [unfoldNames, mem_occurrences_makeSeq, ← mem_occurrencesAll] at h
    exact mem_occurrencesAll_unfoldAll rules h
  | choice rules, h => by
    rw [unfoldNames, mem_occurrences_makeChoice, ← mem_occurrencesAll] at h
    exact mem_occurrencesAll_unfoldAll rules h
  | repeated content _, h | optional content, h | token content _, h | prec _ _ content, h
  | aliased content _ _, h | field _ content, h => mem_occurrences_unfoldNames content h

theorem mem_occurrencesAll_unfoldAll {k : String} : (rules : List Rule) →
    k ∈ occurrencesAll (unfoldAll hidden expansions rules) →
    (k ∈ occurrencesAll rules ∧ hidden k = false)
      ∨ ∃ j ∈ occurrencesAll rules, hidden j = true ∧ k ∈ (expansions j).occurrences
  | [], h => absurd h (by simp [unfoldAll, occurrencesAll])
  | r :: rs, h => by
    rw [unfoldAll, occurrencesAll, List.mem_append] at h
    simp only [occurrencesAll, List.mem_append]
    rcases h with h | h
    · rcases mem_occurrences_unfoldNames r h with ⟨hk, hn⟩ | ⟨j, hj, hn, hk⟩
      · exact .inl ⟨.inl hk, hn⟩
      · exact .inr ⟨j, .inl hj, hn, hk⟩
    · rcases mem_occurrencesAll_unfoldAll rs h with ⟨hk, hn⟩ | ⟨j, hj, hn, hk⟩
      · exact .inl ⟨.inr hk, hn⟩
      · exact .inr ⟨j, .inr hj, hn, hk⟩

end

variable {α : Type} {A : Reading α}

mutual

theorem language_unfoldNames : (r : Rule) →
    (∀ k ∈ r.occurrences, hidden k = true → (expansions k).language A = A.symbol k) →
    (r.unfoldNames hidden expansions).language A = r.language A
  | terminal _, _ => rfl
  | symbol name, h => by
    rw [unfoldNames]
    by_cases hn : hidden name = true
    · rw [if_pos hn, h name (by simp [occurrences]) hn, language]
    · rw [if_neg hn]
  | seq rules, h => by
    rw [unfoldNames, language_makeSeq, productLanguage_unfoldAll rules h, language]
  | choice rules, h => by
    rw [unfoldNames, language_makeChoice, unionLanguage_unfoldAll rules h, language]
  | repeated content .zeroOrMore, h | repeated content .oneOrMore, h | optional content, h
  | token content _, h | prec _ _ content, h | aliased content _ _, h | field _ content, h => by
    rw [unfoldNames, language, language, language_unfoldNames content h]

theorem productLanguage_unfoldAll : (rules : List Rule) →
    (∀ k ∈ occurrencesAll rules, hidden k = true → (expansions k).language A = A.symbol k) →
    productLanguage A (unfoldAll hidden expansions rules) = productLanguage A rules
  | [], _ => rfl
  | r :: rs, h => by
    simp only [occurrencesAll, List.mem_append] at h
    rw [unfoldAll, productLanguage, productLanguage,
      language_unfoldNames r fun k hk => h k (.inl hk),
      productLanguage_unfoldAll rs fun k hk => h k (.inr hk)]

theorem unionLanguage_unfoldAll : (rules : List Rule) →
    (∀ k ∈ occurrencesAll rules, hidden k = true → (expansions k).language A = A.symbol k) →
    unionLanguage A (unfoldAll hidden expansions rules) = unionLanguage A rules
  | [], _ => rfl
  | r :: rs, h => by
    simp only [occurrencesAll, List.mem_append] at h
    rw [unfoldAll, unionLanguage, unionLanguage,
      language_unfoldNames r fun k hk => h k (.inl hk),
      unionLanguage_unfoldAll rs fun k hk => h k (.inr hk)]

end

end Rule

namespace Inlining

variable {t : SymbolTable} {m : OrderedMap String Inlined}

structure InlinedBy (t : SymbolTable) (m : OrderedMap String Inlined) (r : Rule)
    (inlined : Inlined) : Prop where
  rule : inlined.rule = (r.unfoldNames t.isInlined (ruleIn m)).canonicalize
  used : ∀ k ∈ inlined.used, Reaches t r k
  inner : ∀ k ∈ r.occurrences, t.isInlined k = true → Expanded t m k

theorem Expanded.inlinedBy {name : String} (h : Expanded t m name) {info : SymbolInfo}
    (get : t.get? name = some info) {inlined : Inlined} (entry : m.get? name = some inlined) :
    InlinedBy t m info.body.canonicalize inlined := by
  obtain ⟨get', entry', rule, used, inner⟩ := h
  obtain rfl := Option.some.inj (get'.symm.trans get)
  obtain rfl := Option.some.inj (entry'.symm.trans entry)
  exact ⟨rule, used, inner⟩

theorem InlinedBy.extend {m' : OrderedMap String Inlined} (hm : Extends m m') {r : Rule}
    {inlined : Inlined} (h : InlinedBy t m r inlined) : InlinedBy t m' r inlined where
  rule := by
    rw [h.rule, unfoldNames_extends hm fun k hk hidden => (h.inner k hk hidden).known]
  used := h.used
  inner k hk hidden := (h.inner k hk hidden).extend hm

theorem Expanded.visible {name : String} (h : Expanded t m name) :
    ∀ k ∈ (ruleIn m name).occurrences, t.isInlined k = false := by
  induction h with
  | intro get entry rule used inner ih =>
    intro k hk
    rw [ruleIn_eq entry, rule, Rule.mem_occurrences_canonicalize] at hk
    rcases Rule.mem_occurrences_unfoldNames _ hk with ⟨-, visible⟩ | ⟨j, hj, hidden, hk⟩
    · exact visible
    · exact ih j hj hidden k hk

theorem InlinedBy.visible {r : Rule} {inlined : Inlined} (h : InlinedBy t m r inlined) :
    ∀ k ∈ inlined.rule.occurrences, t.isInlined k = false := by
  intro k hk
  rw [h.rule, Rule.mem_occurrences_canonicalize] at hk
  rcases Rule.mem_occurrences_unfoldNames _ hk with ⟨-, visible⟩ | ⟨j, hj, hidden, hk⟩
  · exact visible
  · exact (h.inner j hj hidden).visible k hk

/-- A property of names that holds in every body of a hidden rule holds in every expansion. -/
theorem Expanded.forall_occurrences {p : String → Prop}
    (bodies : ∀ name info, t.get? name = some info → ∀ k ∈ info.body.occurrences, p k)
    {name : String} (h : Expanded t m name) : ∀ k ∈ (ruleIn m name).occurrences, p k := by
  induction h with
  | intro get entry rule used inner ih =>
    intro k hk
    rw [ruleIn_eq entry, rule, Rule.mem_occurrences_canonicalize] at hk
    rcases Rule.mem_occurrences_unfoldNames _ hk with ⟨hk, -⟩ | ⟨j, hj, hidden, hk⟩
    · exact bodies _ _ get k ((Rule.mem_occurrences_canonicalize _).1 hk)
    · exact ih j hj hidden k hk

theorem InlinedBy.forall_occurrences {p : String → Prop}
    (bodies : ∀ name info, t.get? name = some info → ∀ k ∈ info.body.occurrences, p k)
    {r : Rule} (hr : ∀ k ∈ r.occurrences, p k) {inlined : Inlined}
    (h : InlinedBy t m r inlined) : ∀ k ∈ inlined.rule.occurrences, p k := by
  intro k hk
  rw [h.rule, Rule.mem_occurrences_canonicalize] at hk
  rcases Rule.mem_occurrences_unfoldNames _ hk with ⟨hk, -⟩ | ⟨j, hj, hidden, hk⟩
  · exact hr k hk
  · exact (h.inner j hj hidden).forall_occurrences bodies k hk

variable {α : Type} {A : Reading α}

/-- Inlining keeps the language if hidden names stand for their expansions. -/
theorem InlinedBy.language (hA : A.JoinsTokens) {r : Rule} {inlined : Inlined}
    (h : InlinedBy t m r inlined)
    (hidden : ∀ k, t.isInlined k = true → Expanded t m k →
      A.symbol k = (ruleIn m k).language A) :
    inlined.rule.language A = r.language A := by
  rw [h.rule, Rule.language_canonicalize hA]
  exact Rule.language_unfoldNames r fun k hk hn => (hidden k hn (h.inner k hk hn)).symm

theorem Expanded.language (hA : A.JoinsTokens)
    (bodies : ∀ name info, t.get? name = some info → t.isInlined name = true →
      A.symbol name = info.body.language A)
    {name : String} (hidden : t.isInlined name = true) (h : Expanded t m name) :
    A.symbol name = (ruleIn m name).language A := by
  induction h with
  | @intro name info inlined get entry rule used inner ih =>
    rw [ruleIn_eq entry, rule, Rule.language_canonicalize hA,
      Rule.language_unfoldNames _ fun k hk hn => (ih k hk hn hn).symm,
      Rule.language_canonicalize hA]
    exact bodies _ _ get hidden

theorem Ready.at_start (t : SymbolTable) : Ready t [] start where
  expanded name hname := absurd hname (by
    simp [start, OrderedMap.keys, EmptyCollection.emptyCollection, OrderedMap.empty])
  fresh name hname := absurd hname (by simp)
  quiet _ cycle hcycle := absurd hcycle (by
    rw [← OrderedSet.mem_toList]
    simp [start])

theorem inline_run {r : Rule} {s s' : Inlining} {inlined : Inlined}
    (h : (inline t r).run s = (inlined, s')) :
    Later t [] s s' ∧ (s'.reports = [] → Ready t [] s → InlinedBy t s'.expanded r inlined) := by
  obtain ⟨later, right⟩ := inlineWith_run (expand_run t) h
  refine ⟨later, fun none ready => ?_⟩
  obtain ⟨-, rule, present, used⟩ := right none ready
  exact ⟨rule, used, fun k hk hidden =>
    (later.ready none ready).expanded k (present k hk hidden)⟩

/-- The body of a rule is inlined, and that of a hidden rule is kept as its expansion. -/
theorem body_run {name : String} {info : SymbolInfo} (get : t.get? name = some info)
    {s s' : Inlining} {inlined : Inlined} (h : (body t name).run s = (inlined, s')) :
    Later t [] s s' ∧ (s'.reports = [] → Ready t [] s →
      InlinedBy t s'.expanded info.body.canonicalize inlined
        ∧ (t.isInlined name = true → s'.expanded.get? name = some inlined)) := by
  unfold body at h
  by_cases hidden : t.isInlined name = true
  · rw [if_pos hidden] at h
    obtain ⟨later, right⟩ := expand_run t name s inlined s' hidden h
    refine ⟨later, fun none ready => ?_⟩
    obtain ⟨entry, -, -⟩ := right none ready
    have known : name ∈ s'.expanded.keys := OrderedMap.get?_isSome_iff.1 (by rw [entry]; rfl)
    have expanded := (later.ready none ready).expanded name known
    exact ⟨expanded.inlinedBy get entry, fun _ => entry⟩
  · rw [if_neg hidden, get] at h
    obtain ⟨later, right⟩ := inline_run h
    exact ⟨later, fun none ready => ⟨right none ready, fun yes => absurd yes hidden⟩⟩

end Inlining

namespace NormalForm

open Inlining

variable {t : SymbolTable}

structure InlinesRules (t : SymbolTable) (m : OrderedMap String Inlined)
    (rules : List (String × Inlined)) : Prop where
  each : ∀ name inlined, (name, inlined) ∈ rules → ∃ info, t.get? name = some info
    ∧ InlinedBy t m info.body.canonicalize inlined
    ∧ (t.isInlined name = true → m.get? name = some inlined)

theorem InlinesRules.extend {m m' : OrderedMap String Inlined} (hm : Extends m m')
    {rules : List (String × Inlined)} (h : InlinesRules t m rules) : InlinesRules t m' rules where
  each name inlined mem := by
    obtain ⟨info, get, by_, entry⟩ := h.each name inlined mem
    exact ⟨info, get, by_.extend hm, fun hidden => hm _ _ (entry hidden)⟩

theorem inlineRules_run {infos : List SymbolInfo}
    (named : ∀ info ∈ infos, t.get? info.name = some info) {s s' : Inlining}
    {rules : List (String × Inlined)} (h : (inlineRules t infos).run s = (rules, s')) :
    rules.map Prod.fst = infos.map SymbolInfo.name
      ∧ Later t [] s s' ∧ (s'.reports = [] → Ready t [] s →
        InlinesRules t s'.expanded rules) := by
  induction infos generalizing s rules with
  | nil =>
    obtain ⟨rfl, rfl⟩ := run_pure_eq_iff.1 h
    exact ⟨rfl, .refl _, fun _ _ => ⟨fun _ _ mem => absurd mem (by simp)⟩⟩
  | cons info infos ih =>
    obtain ⟨inlined, s₁, first, h⟩ := run_bind_eq_iff.1 h
    obtain ⟨rest, s₂, run, h⟩ := run_bind_eq_iff.1 h
    obtain ⟨rfl, rfl⟩ := run_pure_eq_iff.1 h
    have get := named info (by simp)
    obtain ⟨later, right⟩ := body_run get first
    obtain ⟨names, laterRest, rightRest⟩ := ih (fun i hi => named i (by simp [hi])) run
    refine ⟨by simp [names], later.trans laterRest, fun none ready => ?_⟩
    have noneFirst := laterRest.silent none
    have readyRest := later.ready noneFirst ready
    have grows := laterRest.grows none readyRest
    obtain ⟨by_, entry⟩ := right noneFirst ready
    refine ⟨fun name other mem => ?_⟩
    rcases List.mem_cons.1 mem with mem | mem
    · cases mem
      exact ⟨info, get, by_.extend grows, fun hidden => grows _ _ (entry hidden)⟩
    · exact (rightRest none readyRest).each name other mem

theorem inlineExtras_run {extras : List Rule} {s s' : Inlining} {out : List Rule}
    (h : (inlineExtras t extras).run s = (out, s')) :
    Later t [] s s' ∧ (s'.reports = [] → Ready t [] s →
      List.Forall₂ (fun r rule => ∃ used, InlinedBy t s'.expanded r ⟨rule, used⟩) extras out) := by
  induction extras generalizing s out with
  | nil =>
    obtain ⟨rfl, rfl⟩ := run_pure_eq_iff.1 h
    exact ⟨.refl _, fun _ _ => .nil⟩
  | cons extra extras ih =>
    obtain ⟨inlined, s₁, first, h⟩ := run_bind_eq_iff.1 h
    obtain ⟨rest, s₂, run, h⟩ := run_bind_eq_iff.1 h
    obtain ⟨rfl, rfl⟩ := run_pure_eq_iff.1 h
    obtain ⟨later, right⟩ := inline_run first
    obtain ⟨laterRest, rightRest⟩ := ih run
    refine ⟨later.trans laterRest, fun none ready => ?_⟩
    have noneFirst := laterRest.silent none
    have readyRest := later.ready noneFirst ready
    have grows := laterRest.grows none readyRest
    exact .cons ⟨inlined.used, (right noneFirst ready).extend grows⟩ (rightRest none readyRest)

end NormalForm

end Productions
