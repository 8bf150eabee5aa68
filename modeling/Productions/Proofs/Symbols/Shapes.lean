import Productions.Proofs.Desugaring.Rules
import Productions.Proofs.Subtrees

/-! Shapes of rules. The tests that decide how a rule is classified, as predicates on its tree, and
what becomes of each of them when the rule is brought to canonical form. -/
namespace Productions.Rule

/-- A terminal or a token under any number of precedences. -/
inductive TokenShape : Rule → Prop where
  | terminal (t) : TokenShape (terminal t)
  | token (content immediate) : TokenShape (token content immediate)
  | prec (value assoc) {content} (inner : TokenShape content) :
      TokenShape (prec value assoc content)

inductive SymbolShape : Rule → Prop where
  | symbol (name) : SymbolShape (symbol name)
  | aliased (value named) {content} (inner : SymbolShape content) :
      SymbolShape (aliased content value named)

inductive SymbolChoice : Rule → Prop where
  | choice {members} (some : members ≠ []) (each : ∀ m ∈ members, SymbolShape m) :
      SymbolChoice (choice members)

def CarriesField (r : Rule) : Prop := ∃ name content, Within (field name content) r

theorem isTokenShaped_iff {r : Rule} : r.isTokenShaped = true ↔ r.TokenShape := by
  constructor
  · intro h
    induction r with
    | terminal t => exact .terminal t
    | token content immediate => exact .token content immediate
    | prec value assoc content ih => exact .prec value assoc (ih h)
    | _ => cases h
  · intro h
    induction h with
    | terminal | token => rfl
    | prec _ _ _ ih => exact ih

theorem isAliasedSymbol_iff {r : Rule} : r.isAliasedSymbol = true ↔ r.SymbolShape := by
  constructor
  · intro h
    induction r with
    | symbol name => exact .symbol name
    | aliased content value named ih => exact .aliased value named (ih h)
    | _ => cases h
  · intro h
    induction h with
    | symbol => rfl
    | aliased _ _ _ ih => exact ih

theorem isSymbolChoice_iff {r : Rule} : r.isSymbolChoice = true ↔ r.SymbolChoice := by
  constructor
  · intro h
    cases r with
    | choice members =>
      simp only [isSymbolChoice, Bool.and_eq_true, Bool.not_eq_true', List.isEmpty_eq_false_iff,
        List.all_eq_true] at h
      exact .choice h.1 fun m mem => isAliasedSymbol_iff.1 (h.2 m mem)
    | _ => cases h
  · rintro ⟨some, each⟩
    simp only [isSymbolChoice, Bool.and_eq_true, Bool.not_eq_true', List.isEmpty_eq_false_iff,
      List.all_eq_true]
    exact ⟨some, fun m mem => isAliasedSymbol_iff.2 (each m mem)⟩

theorem hasField_iff_children {r : Rule} : r.hasField = true
    ↔ (∃ name content, field name content = r) ∨ ∃ c ∈ r.children, c.hasField = true := by
  cases r <;> simp [hasField, children, anyHasField_eq_any]

theorem hasField_iff {r : Rule} : r.hasField = true ↔ r.CarriesField := by
  rw [exists_within_iff (fun _ => hasField_iff_children) r, CarriesField]
  constructor
  · rintro ⟨_, within, name, content, rfl⟩
    exact ⟨name, content, within⟩
  · rintro ⟨name, content, within⟩
    exact ⟨_, within, name, content, rfl⟩

theorem TokenShape.canonicalize {r : Rule} (h : r.TokenShape) : r.canonicalize.TokenShape := by
  induction h with
  | terminal t => exact .terminal t
  | token content immediate =>
    rw [Rule.canonicalize, makeToken.eq_def]
    split
    · exact .token _ _
    · exact .token _ _
  | prec value assoc _ ih => exact .prec value assoc ih

theorem SymbolShape.canonicalize {r : Rule} (h : r.SymbolShape) : r.canonicalize.SymbolShape := by
  induction h with
  | symbol name => exact .symbol name
  | aliased value named _ ih => exact .aliased value named ih

theorem SymbolShape.not_tokenShape {r : Rule} (h : r.SymbolShape) : ¬ r.TokenShape := by
  intro token
  cases h with
  | symbol | aliased => cases token

theorem SymbolShape.choiceParts_eq {r : Rule} (h : r.SymbolShape) : r.choiceParts = [r] := by
  cases h <;> rfl

/-- A choice between names is brought to a choice, or to the only name that is left. -/
theorem SymbolChoice.not_tokenShape_canonicalize {r : Rule} (h : r.SymbolChoice) :
    ¬ r.canonicalize.TokenShape := by
  obtain ⟨-, each⟩ := h
  rename_i members
  have parts : ∀ part ∈ (OrderedSet.ofList ((members.map Rule.canonicalize).flatMap
      choiceParts)).toList, part.SymbolShape := by
    intro part mem
    rw [OrderedSet.mem_toList, OrderedSet.mem_ofList] at mem
    obtain ⟨_, among, inside⟩ := List.mem_flatMap.1 mem
    obtain ⟨m, hm, rfl⟩ := List.mem_map.1 among
    have shape := (each m hm).canonicalize
    rw [shape.choiceParts_eq, List.mem_singleton] at inside
    rwa [inside]
  rw [Rule.canonicalize, canonicalizeAll_eq_map, makeChoice]
  split
  · rename_i part one
    exact (parts part (by simp [one])).not_tokenShape
  · intro token
    cases token

theorem hasField_makeSeq {rules : List Rule} :
    (makeSeq rules).hasField = true ↔ ∃ r ∈ rules, r.hasField = true := by
  have flat : (∃ part ∈ rules.flatMap seqParts, part.hasField = true)
      ↔ ∃ r ∈ rules, r.hasField = true :=
    exists_mem_parts_iff fun r => by
      cases r <;> simp [seqParts, hasField, anyHasField_eq_any]
  rw [← flat]
  unfold makeSeq
  split
  · rename_i r h
    simp [h]
  · rw [hasField, anyHasField_eq_any, List.any_eq_true]

theorem hasField_makeChoice {rules : List Rule} :
    (makeChoice rules).hasField = true ↔ ∃ r ∈ rules, r.hasField = true := by
  have flat : (∃ part ∈ (OrderedSet.ofList (rules.flatMap choiceParts)).toList,
      part.hasField = true) ↔ ∃ r ∈ rules, r.hasField = true :=
    exists_part_iff fun r => by
      cases r <;> simp [choiceParts, hasField, anyHasField_eq_any]
  rw [← flat]
  unfold makeChoice
  split
  · rename_i r h
    simp [h]
  · rw [hasField, anyHasField_eq_any, List.any_eq_true]

mutual

theorem hasField_canonicalize : (r : Rule) → r.canonicalize.hasField = r.hasField
  | terminal _ | symbol _ => rfl
  | seq rules => by
    rw [Rule.canonicalize, Bool.eq_iff_iff, hasField_makeSeq, ← List.any_eq_true,
      ← anyHasField_eq_any, anyHasField_canonicalizeAll rules, hasField]
  | choice rules => by
    rw [Rule.canonicalize, Bool.eq_iff_iff, hasField_makeChoice, ← List.any_eq_true,
      ← anyHasField_eq_any, anyHasField_canonicalizeAll rules, hasField]
  | optional content => by
    rw [Rule.canonicalize, Bool.eq_iff_iff, hasField_makeChoice, hasField,
      ← hasField_canonicalize content]
    simp [blank, hasField, anyHasField]
  | repeated content .zeroOrMore => by
    rw [Rule.canonicalize, makeRepeated, hasField, hasField, hasField_canonicalize content]
  | repeated content .oneOrMore => by
    rw [Rule.canonicalize, makeRepeated, Bool.eq_iff_iff, hasField_makeSeq, hasField,
      ← hasField_canonicalize content]
    simp [hasField]
  | token content immediate => by
    rw [Rule.canonicalize, hasField, ← hasField_canonicalize content]
    cases content.canonicalize <;> rfl
  | prec _ _ content | aliased content _ _ => by
    rw [Rule.canonicalize, hasField, hasField, hasField_canonicalize content]
  | field _ _ => rfl

theorem anyHasField_canonicalizeAll : (rules : List Rule) →
    anyHasField (canonicalizeAll rules) = anyHasField rules
  | [] => rfl
  | r :: rs => by
    rw [canonicalizeAll, anyHasField, anyHasField, hasField_canonicalize r,
      anyHasField_canonicalizeAll rs]

end

/-- Fields are neither added nor lost. -/
theorem carriesField_canonicalize {r : Rule} : r.canonicalize.CarriesField ↔ r.CarriesField := by
  rw [← hasField_iff, ← hasField_iff, hasField_canonicalize]

end Productions.Rule
