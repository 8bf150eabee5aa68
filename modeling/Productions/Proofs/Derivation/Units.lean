import Productions.Proofs.Derivation.Letters
import Productions.Proofs.Derivation.Rules
import Productions.Proofs.Nullability
import Productions.Proofs.Symbols.Table

/-! Names that a rule derives alone. A rule comes to strings of terminals and names by choosing and
repeating, its forms, and derives a name alone if everything around it in such a form derives the
empty text. All those names are found, given the names that derive the empty text, and these are all
found as well. -/
namespace Productions

open scoped Computability

namespace Rule

def forms (r : Rule) : Language Rule :=
  r.language ⟨fun t => {[terminal t]}, fun name => {[symbol name]}, fun _ L => L, fun _ L => L⟩

def seqForms (rules : List Rule) : Language Rule :=
  productLanguage
    ⟨fun t => {[terminal t]}, fun name => {[symbol name]}, fun _ L => L, fun _ L => L⟩ rules

theorem mem_seqForms_cons {r : Rule} {rules : List Rule} {form : List Rule} :
    form ∈ seqForms (r :: rules) ↔ ∃ a ∈ r.forms, ∃ b ∈ seqForms rules, a ++ b = form :=
  Language.mem_mul

variable {isNullable : String → Bool}

mutual

theorem nullable_of_form : (r : Rule) → {form : List Rule} → form ∈ r.forms →
    (∀ part ∈ form, part.nullable isNullable = true) → r.nullable isNullable = true
  | terminal t, form, h, all => by
    rw [show form = [terminal t] from h] at all
    exact all _ (List.mem_singleton_self _)
  | symbol name, form, h, all => by
    rw [show form = [symbol name] from h] at all
    exact all _ (List.mem_singleton_self _)
  | seq members, _, h, all => everyNullable_of_form members h all
  | choice members, _, h, all => someNullable_of_form members h all
  | repeated _ .zeroOrMore, _, _, _ => rfl
  | repeated content .oneOrMore, _, h, all => by
    obtain ⟨a, ha, b, -, rfl⟩ := Language.mem_mul.1 h
    exact nullable_of_form content ha fun part hp => all part (List.mem_append_left _ hp)
  | optional _, _, _, _ => rfl
  | token content _, _, h, all | prec _ _ content, _, h, all | aliased content _ _, _, h, all
  | field _ content, _, h, all => nullable_of_form content h all
  termination_by structural r => r

theorem everyNullable_of_form : (rules : List Rule) → {form : List Rule} →
    form ∈ seqForms rules → (∀ part ∈ form, part.nullable isNullable = true) →
    everyNullable isNullable rules = true
  | [], _, _, _ => rfl
  | r :: rules, _, h, all => by
    obtain ⟨a, ha, b, hb, rfl⟩ := mem_seqForms_cons.1 h
    rw [everyNullable, Bool.and_eq_true]
    exact ⟨nullable_of_form r ha fun part hp => all part (List.mem_append_left _ hp),
      everyNullable_of_form rules hb fun part hp => all part (List.mem_append_right _ hp)⟩
  termination_by structural rules => rules

theorem someNullable_of_form : (rules : List Rule) → {form : List Rule} →
    form ∈ (choice rules).forms → (∀ part ∈ form, part.nullable isNullable = true) →
    someNullable isNullable rules = true
  | [], _, h, _ => absurd h (Language.notMem_zero _)
  | r :: rules, _, h, all => by
    rw [someNullable, Bool.or_eq_true]
    rcases h with h | h
    · exact .inl (nullable_of_form r h all)
    · exact .inr (someNullable_of_form rules h all)
  termination_by structural rules => rules

end

mutual

theorem mem_occurrences_of_form {name : String} : (r : Rule) → {form : List Rule} →
    form ∈ r.forms → symbol name ∈ form → name ∈ r.occurrences
  | terminal t, form, h, mem => by
    rw [show form = [terminal t] from h] at mem
    simp at mem
  | symbol other, form, h, mem => by
    rw [show form = [symbol other] from h] at mem
    simpa [occurrences] using mem
  | seq members, _, h, mem => mem_occurrencesAll_of_form members h mem
  | choice members, _, h, mem => mem_occurrences_of_alternative members h mem
  | repeated content .zeroOrMore, _, h, mem => by
    obtain ⟨rounds, rfl, hrounds⟩ := h
    obtain ⟨a, ha, mem⟩ := List.mem_flatten.1 mem
    exact mem_occurrences_of_form content (hrounds a ha) mem
  | repeated content .oneOrMore, _, h, mem => by
    obtain ⟨a, ha, _, ⟨rounds, rfl, hrounds⟩, rfl⟩ := Language.mem_mul.1 h
    rcases List.mem_append.1 mem with mem | mem
    · exact mem_occurrences_of_form content ha mem
    · obtain ⟨b, hb, mem⟩ := List.mem_flatten.1 mem
      exact mem_occurrences_of_form content (hrounds b hb) mem
  | optional content, _, h, mem => by
    rcases h with h | rfl
    · exact mem_occurrences_of_form content h mem
    · cases mem
  | token content _, _, h, mem | prec _ _ content, _, h, mem | aliased content _ _, _, h, mem
  | field _ content, _, h, mem => mem_occurrences_of_form content h mem
  termination_by structural r => r

theorem mem_occurrencesAll_of_form {name : String} : (rules : List Rule) → {form : List Rule} →
    form ∈ seqForms rules → symbol name ∈ form → name ∈ occurrencesAll rules
  | [], form, h, mem => by
    rw [(Language.mem_one _).1 h] at mem
    cases mem
  | r :: rules, _, h, mem => by
    obtain ⟨a, ha, b, hb, rfl⟩ := mem_seqForms_cons.1 h
    rw [occurrencesAll]
    rcases List.mem_append.1 mem with mem | mem
    · exact List.mem_append.2 (.inl (mem_occurrences_of_form r ha mem))
    · exact List.mem_append.2 (.inr (mem_occurrencesAll_of_form rules hb mem))
  termination_by structural rules => rules

theorem mem_occurrences_of_alternative {name : String} : (rules : List Rule) →
    {form : List Rule} → form ∈ (choice rules).forms → symbol name ∈ form →
    name ∈ occurrencesAll rules
  | [], _, h, _ => absurd h (Language.notMem_zero _)
  | r :: rules, _, h, mem => by
    rw [occurrencesAll]
    rcases h with h | h
    · exact List.mem_append.2 (.inl (mem_occurrences_of_form r h mem))
    · exact List.mem_append.2 (.inr (mem_occurrences_of_alternative rules h mem))
  termination_by structural rules => rules

end

mutual

/-- A name with nullable parts around it in a form is found. -/
theorem mem_unitOccurrences_of_form {name : String} : (r : Rule) → {x y : List Rule} →
    x ++ symbol name :: y ∈ r.forms → (∀ part ∈ x, part.nullable isNullable = true) →
    (∀ part ∈ y, part.nullable isNullable = true) → name ∈ r.unitOccurrences isNullable
  | terminal _, _, _, h, _, _ => absurd (place_in_single h) nofun
  | symbol other, _, _, h, _, _ => by
    obtain ⟨⟩ := place_in_single h
    exact List.mem_singleton_self _
  | seq members, _, _, h, before, after => mem_unitMembers_of_form members h before after
  | choice members, _, _, h, before, after => mem_unitAlternatives_of_form members h before after
  | repeated content .zeroOrMore, _, _, h, before, after => by
    obtain ⟨_, _, hform, left, right⟩ := place_in_flatten h
    exact mem_unitOccurrences_of_form content hform (fun part hp => before part (left part hp))
      fun part hp => after part (right part hp)
  | repeated content .oneOrMore, _, _, h, before, after => by
    obtain ⟨a, ha, b, hb, same⟩ := Language.mem_mul.1 h
    have rounds := append_mem_kstar ha hb
    rw [same] at rounds
    obtain ⟨_, _, hform, left, right⟩ := place_in_flatten rounds
    exact mem_unitOccurrences_of_form content hform (fun part hp => before part (left part hp))
      fun part hp => after part (right part hp)
  | optional content, x, y, h, before, after => by
    rcases h with h | h
    · exact mem_unitOccurrences_of_form content h before after
    · exact absurd ((Language.mem_one _).1 h) (by simp)
  | token content _, _, _, h, before, after | prec _ _ content, _, _, h, before, after
  | aliased content _ _, _, _, h, before, after | field _ content, _, _, h, before, after =>
    mem_unitOccurrences_of_form content h before after
  termination_by structural r => r

theorem mem_unitMembers_of_form {name : String} : (rules : List Rule) → {x y : List Rule} →
    x ++ symbol name :: y ∈ seqForms rules → (∀ part ∈ x, part.nullable isNullable = true) →
    (∀ part ∈ y, part.nullable isNullable = true) → name ∈ unitMembers isNullable true rules
  | [], _, _, h, _, _ => by simpa using (Language.mem_one _).1 h
  | r :: rules, _, _, h, before, after => by
    obtain ⟨a, ha, b, hb, same⟩ := mem_seqForms_cons.1 h
    rw [unitMembers, Bool.true_and, Bool.true_and, List.mem_append]
    rcases place_in_append same with ⟨y', rfl, rfl⟩ | ⟨x', rfl, rfl⟩
    · rw [if_pos (everyNullable_of_form rules hb fun part hp =>
        after part (List.mem_append_right _ hp))]
      exact .inl (mem_unitOccurrences_of_form r ha before fun part hp =>
        after part (List.mem_append_left _ hp))
    · rw [nullable_of_form r ha fun part hp => before part (List.mem_append_left _ hp)]
      exact .inr (mem_unitMembers_of_form rules hb
        (fun part hp => before part (List.mem_append_right _ hp)) after)
  termination_by structural rules => rules

theorem mem_unitAlternatives_of_form {name : String} : (rules : List Rule) → {x y : List Rule} →
    x ++ symbol name :: y ∈ (choice rules).forms →
    (∀ part ∈ x, part.nullable isNullable = true) →
    (∀ part ∈ y, part.nullable isNullable = true) → name ∈ unitAlternatives isNullable rules
  | [], _, _, h, _, _ => absurd h (Language.notMem_zero _)
  | r :: rules, _, _, h, before, after => by
    rw [unitAlternatives, List.mem_append]
    rcases h with h | h
    · exact .inl (mem_unitOccurrences_of_form r h before after)
    · exact .inr (mem_unitAlternatives_of_form rules h before after)
  termination_by structural rules => rules

end

mutual

theorem exists_form_of_nullable : (r : Rule) → r.nullable isNullable = true →
    ∃ form ∈ r.forms, ∀ part ∈ form, part.nullable isNullable = true
  | terminal t, h => ⟨[terminal t], rfl, by simpa using h⟩
  | symbol name, h => ⟨[symbol name], rfl, by simpa using h⟩
  | seq members, h => exists_seqForm_of_everyNullable members h
  | choice members, h => exists_form_of_someNullable members h
  | repeated _ .zeroOrMore, _ => ⟨[], Language.nil_mem_kstar _, by simp⟩
  | repeated content .oneOrMore, h => by
    obtain ⟨form, hform, all⟩ := exists_form_of_nullable content h
    exact ⟨form ++ [], Language.append_mem_mul hform (Language.nil_mem_kstar _), by simpa using all⟩
  | optional _, _ => ⟨[], .inr rfl, by simp⟩
  | token content _, h | prec _ _ content, h | aliased content _ _, h | field _ content, h =>
    exists_form_of_nullable content h
  termination_by structural r => r

theorem exists_seqForm_of_everyNullable : (rules : List Rule) →
    everyNullable isNullable rules = true →
    ∃ form ∈ seqForms rules, ∀ part ∈ form, part.nullable isNullable = true
  | [], _ => ⟨[], Language.nil_mem_one, by simp⟩
  | r :: rules, h => by
    rw [everyNullable, Bool.and_eq_true] at h
    obtain ⟨a, ha, first⟩ := exists_form_of_nullable r h.1
    obtain ⟨b, hb, rest⟩ := exists_seqForm_of_everyNullable rules h.2
    exact ⟨a ++ b, mem_seqForms_cons.2 ⟨a, ha, b, hb, rfl⟩,
      List.forall_mem_append.2 ⟨first, rest⟩⟩
  termination_by structural rules => rules

theorem exists_form_of_someNullable : (rules : List Rule) →
    someNullable isNullable rules = true →
    ∃ form ∈ (choice rules).forms, ∀ part ∈ form, part.nullable isNullable = true
  | r :: rules, h => by
    rw [someNullable, Bool.or_eq_true] at h
    rcases h with h | h
    · obtain ⟨form, hform, all⟩ := exists_form_of_nullable r h
      exact ⟨form, .inl hform, all⟩
    · obtain ⟨form, hform, all⟩ := exists_form_of_someNullable rules h
      exact ⟨form, .inr hform, all⟩
  termination_by structural rules => rules

end

/-- Of the members of a sequence none counts once one before it is not nullable. -/
theorem unitMembers_false (rules : List Rule) : unitMembers isNullable false rules = [] := by
  induction rules with
  | nil => rfl
  | cons r rules ih => rw [unitMembers, Bool.false_and, Bool.false_and, ih]; rfl

mutual

/-- A name that is found stands in a form with nullable parts around it. -/
theorem exists_form_of_mem_unitOccurrences {name : String} : (r : Rule) →
    name ∈ r.unitOccurrences isNullable → ∃ x y, x ++ symbol name :: y ∈ r.forms
      ∧ ∀ part ∈ x ++ y, part.nullable isNullable = true
  | symbol _, h => by
    rw [List.mem_singleton.1 h]
    exact ⟨[], [], rfl, by simp⟩
  | seq members, h => exists_seqForm_of_mem_unitMembers members h
  | choice members, h => exists_form_of_mem_unitAlternatives members h
  | repeated content .zeroOrMore, h => by
    obtain ⟨x, y, hform, around⟩ := exists_form_of_mem_unitOccurrences content h
    have round := append_mem_kstar hform (Language.nil_mem_kstar _)
    rw [List.append_nil] at round
    exact ⟨x, y, round, around⟩
  | repeated content .oneOrMore, h => by
    obtain ⟨x, y, hform, around⟩ := exists_form_of_mem_unitOccurrences content h
    have round := Language.append_mem_mul hform (Language.nil_mem_kstar content.forms)
    rw [List.append_nil] at round
    exact ⟨x, y, round, around⟩
  | optional content, h => by
    obtain ⟨x, y, hform, around⟩ := exists_form_of_mem_unitOccurrences content h
    exact ⟨x, y, .inl hform, around⟩
  | token content _, h | prec _ _ content, h | aliased content _ _, h | field _ content, h =>
    exists_form_of_mem_unitOccurrences content h
  termination_by structural r => r

theorem exists_seqForm_of_mem_unitMembers {name : String} : (rules : List Rule) →
    name ∈ unitMembers isNullable true rules → ∃ x y, x ++ symbol name :: y ∈ seqForms rules
      ∧ ∀ part ∈ x ++ y, part.nullable isNullable = true
  | r :: rules, h => by
    rw [unitMembers, Bool.true_and, Bool.true_and, List.mem_append] at h
    rcases h with h | h
    · split at h <;> rename_i after
      · obtain ⟨x, y, hform, around⟩ := exists_form_of_mem_unitOccurrences r h
        obtain ⟨b, hb, rest⟩ := exists_seqForm_of_everyNullable rules after
        refine ⟨x, y ++ b, mem_seqForms_cons.2 ⟨_, hform, b, hb, by simp⟩, ?_⟩
        rw [← List.append_assoc]
        exact List.forall_mem_append.2 ⟨around, rest⟩
      · cases h
    · cases before : r.nullable isNullable with
      | false =>
        rw [before, unitMembers_false] at h
        cases h
      | true =>
        rw [before] at h
        obtain ⟨a, ha, first⟩ := exists_form_of_nullable r before
        obtain ⟨x, y, hform, around⟩ := exists_seqForm_of_mem_unitMembers rules h
        refine ⟨a ++ x, y, mem_seqForms_cons.2 ⟨a, ha, _, hform, by simp⟩, ?_⟩
        rw [List.append_assoc]
        exact List.forall_mem_append.2 ⟨first, around⟩
  termination_by structural rules => rules

theorem exists_form_of_mem_unitAlternatives {name : String} : (rules : List Rule) →
    name ∈ unitAlternatives isNullable rules → ∃ x y, x ++ symbol name :: y ∈ (choice rules).forms
      ∧ ∀ part ∈ x ++ y, part.nullable isNullable = true
  | r :: rules, h => by
    rw [unitAlternatives, List.mem_append] at h
    rcases h with h | h
    · obtain ⟨x, y, hform, around⟩ := exists_form_of_mem_unitOccurrences r h
      exact ⟨x, y, .inl hform, around⟩
    · obtain ⟨x, y, hform, around⟩ := exists_form_of_mem_unitAlternatives rules h
      exact ⟨x, y, .inr hform, around⟩
  termination_by structural rules => rules

end

end Rule

namespace Grammar

variable {g : Grammar}

def DerivesEmpty (g : Grammar) (r : Rule) : Prop := ∃ w, g.Derives r w ∧ Letter.silent w = true

/-- A rule derives another one alone in one step: the name of that one stands in a form of its
body, and everything around it derives the empty text. -/
def DerivesAlone (g : Grammar) (a b : String) : Prop :=
  ∃ d x y, g.get? a = some d ∧ x ++ .symbol b :: y ∈ d.body.forms
    ∧ ∀ part ∈ x ++ y, g.DerivesEmpty part

abbrev nullableNames (g : Grammar) : OrderedSet String :=
  Rule.nullableNames (Symbols.declared g).bodies

theorem get?_declared_of_get? {name : String} {d : Definition} (found : g.get? name = some d) :
    ∃ index, (Symbols.declared g).get? name = some (Symbols.declare g index d) := by
  rw [Symbols.get?_eq_find?_zipIdx, Option.map_eq_some_iff] at found
  obtain ⟨⟨_, index⟩, found, rfl⟩ := found
  exact ⟨index, by rw [Symbols.get?_declared, found]; rfl⟩

theorem mem_nullableNames {name : String} {d : Definition} (found : g.get? name = some d)
    (nullable : d.body.nullable g.nullableNames.contains = true) : name ∈ g.nullableNames := by
  obtain ⟨index, declared⟩ := get?_declared_of_get? found
  refine OrderedSet.mem_leastClosed_of_holds _ (name, d.body) ?_ nullable
  refine OrderedMap.get?_eq_some_iff.1 ?_
  rw [SymbolTable.bodies, OrderedMap.get?_mapValues]
  exact congrArg (Option.map SymbolInfo.body) declared

theorem exists_of_reference {name : String} {body : Rule}
    (ref : g.reference name = .rule body ∨ g.reference name = .token body) :
    ∃ d, g.get? name = some d ∧ d.body = body := by
  unfold reference at ref
  cases found : g.get? name with
  | none => simp [found] at ref
  | some d =>
    simp only [found] at ref
    refine ⟨d, rfl, ?_⟩
    split at ref <;> simpa using ref

theorem nullable_of_derives {r : Rule} {w : List Letter} (h : g.Derives r w)
    (silent : Letter.silent w = true) : r.nullable g.nullableNames.contains = true := by
  refine Rule.nullable_of_derives (fun name body ref nullable => ?_) h silent
  obtain ⟨d, found, rfl⟩ := exists_of_reference ref
  exact OrderedSet.contains_iff.2 (mem_nullableNames found nullable)

/-- A rule that another one derives alone is among the names found for its body. -/
theorem DerivesAlone.mem_units {a b : String} (h : g.DerivesAlone a b) :
    ∃ d, g.get? a = some d ∧ b ∈ d.body.units g.nullableNames.contains
      ∧ b ∈ d.body.symbols := by
  obtain ⟨d, x, y, found, form, empty⟩ := h
  have nullable : ∀ part ∈ x ++ y, part.nullable g.nullableNames.contains = true := by
    intro part mem
    obtain ⟨w, derives, silent⟩ := empty part mem
    exact nullable_of_derives derives silent
  refine ⟨d, found, OrderedSet.mem_ofList.2 ?_, OrderedSet.mem_ofList.2 ?_⟩
  · exact Rule.mem_unitOccurrences_of_form d.body form
      (fun part mem => nullable part (List.mem_append_left _ mem))
      fun part mem => nullable part (List.mem_append_right _ mem)
  · exact Rule.mem_occurrences_of_form d.body form (by simp)

end Grammar

end Productions
