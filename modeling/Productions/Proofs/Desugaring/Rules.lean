import Productions.Proofs.Canonical
import Productions.Proofs.Inlining.Bodies
import Productions.Proofs.Ordered
import Productions.Rule.Nullable

/-! Optional parts and repetitions of one or more, written out. An optional part is a choice with
the blank rule, a repetition of one or more is the rule followed by zero or more of it. Neither can
be told from its other form: not by the canonical form of a rule, and not by what is read off the
rule as it stands. -/
namespace Productions.Rule

/-- One optional part or one repetition of one or more is written out, anywhere in a rule. -/
inductive Desugars : Rule → Rule → Prop where
  | optional (r) : Desugars (optional r) (choice [r, blank])
  | repeated (r) : Desugars (repeated r .oneOrMore) (seq [r, repeated r .zeroOrMore])
  | inSeq {r s} (before after) (inner : Desugars r s) :
      Desugars (seq (before ++ r :: after)) (seq (before ++ s :: after))
  | inChoice {r s} (before after) (inner : Desugars r s) :
      Desugars (choice (before ++ r :: after)) (choice (before ++ s :: after))
  | inRepeated {r s} (repetition) (inner : Desugars r s) :
      Desugars (.repeated r repetition) (.repeated s repetition)
  | inOptional {r s} (inner : Desugars r s) : Desugars (.optional r) (.optional s)
  | inToken {r s} (immediate) (inner : Desugars r s) :
      Desugars (token r immediate) (token s immediate)
  | inPrec {r s} (value assoc) (inner : Desugars r s) :
      Desugars (prec value assoc r) (prec value assoc s)
  | inAliased {r s} (value named) (inner : Desugars r s) :
      Desugars (aliased r value named) (aliased s value named)
  | inField {r s} (name) (inner : Desugars r s) : Desugars (field name r) (field name s)

variable {r s : Rule}

theorem Desugars.canonicalize_eq (h : Desugars r s) : r.canonicalize = s.canonicalize := by
  induction h with
  | optional | repeated => rfl
  | inSeq before after _ ih | inChoice before after _ ih =>
    simp only [canonicalize, canonicalizeAll_eq_map, List.map_append, List.map_cons, ih]
  | inOptional _ ih => rw [canonicalize, canonicalize, ih]
  | inRepeated _ _ ih | inToken _ _ ih | inField _ _ ih => rw [canonicalize, canonicalize, ih]
  | inPrec _ _ _ ih | inAliased _ _ _ ih => rw [canonicalize, canonicalize, ih]

theorem seqParts_canonicalize_seq (members : List Rule) :
    (seq members).canonicalize.seqParts = (members.map canonicalize).flatMap seqParts := by
  have parts : ∀ part ∈ (members.map canonicalize).flatMap seqParts, ¬ part.IsSeq := by
    intro part mem
    obtain ⟨_, hr, mem⟩ := List.mem_flatMap.1 mem
    obtain ⟨r, -, rfl⟩ := List.mem_map.1 hr
    exact ((canonical_canonicalize r).of_mem_seqParts mem).2
  rw [canonicalize, canonicalizeAll_eq_map, makeSeq]
  split
  · rename_i part one
    have flat := parts part (by simp [one])
    rw [one]
    cases part with
    | seq => exact absurd trivial flat
    | _ => rfl
  · rfl

theorem choiceParts_canonicalize_choice (members : List Rule) :
    (choice members).canonicalize.choiceParts
      = (OrderedSet.ofList ((members.map canonicalize).flatMap choiceParts)).toList := by
  have parts : ∀ part ∈ (OrderedSet.ofList ((members.map canonicalize).flatMap choiceParts)).toList,
      ¬ part.IsChoice := by
    intro part mem
    rw [OrderedSet.mem_toList, OrderedSet.mem_ofList] at mem
    obtain ⟨_, hr, mem⟩ := List.mem_flatMap.1 mem
    obtain ⟨r, -, rfl⟩ := List.mem_map.1 hr
    exact ((canonical_canonicalize r).of_mem_choiceParts mem).2
  rw [canonicalize, canonicalizeAll_eq_map, makeChoice]
  split
  · rename_i part one
    have flat := parts part (by simp [one])
    rw [one]
    cases part with
    | choice => exact absurd trivial flat
    | _ => rfl
  · rfl

theorem Canonical.makeSeq_singleton (h : Canonical r) : makeSeq [r] = r := by
  cases h with
  | @seq members each flat several =>
    have parts : [Rule.seq members].flatMap seqParts = members := List.append_nil members
    rw [makeSeq, parts]
    split
    · exact absurd rfl several
    · rfl
  | _ => rfl

theorem Canonical.makeChoice_singleton (h : Canonical r) : makeChoice [r] = r := by
  cases h with
  | @choice members each flat distinct several =>
    have parts : [Rule.choice members].flatMap choiceParts = members := List.append_nil members
    rw [makeChoice, parts, OrderedSet.toList_ofList_of_nodup distinct]
    split
    · exact absurd rfl several
    · rfl
  | _ => rfl

/-- Flattening before the members are canonical makes no difference. -/
theorem canonicalize_makeSeq (members : List Rule) :
    (makeSeq members).canonicalize = (seq members).canonicalize := by
  have each (r : Rule) : (r.seqParts.map canonicalize).flatMap seqParts
      = r.canonicalize.seqParts := by
    cases r with
    | seq parts => exact (seqParts_canonicalize_seq parts).symm
    | _ => exact List.append_nil _
  have parts : ((members.flatMap seqParts).map canonicalize).flatMap seqParts
      = (members.map canonicalize).flatMap seqParts := by
    rw [List.map_flatMap, List.flatMap_assoc, List.flatMap_map]
    exact List.flatMap_congr fun r _ => each r
  have flattened : (seq members).canonicalize
      = makeSeq ((members.flatMap seqParts).map canonicalize) := by
    rw [canonicalize, canonicalizeAll_eq_map, makeSeq, makeSeq, parts]
  rw [flattened, makeSeq]
  split
  · rename_i part one
    rw [one]
    exact (canonical_canonicalize part).makeSeq_singleton.symm
  · rw [canonicalize, canonicalizeAll_eq_map]

/-- Neither does it to drop repeated alternatives before. -/
theorem canonicalize_makeChoice (members : List Rule) :
    (makeChoice members).canonicalize = (choice members).canonicalize := by
  have each (r : Rule) : OrderedSet.ofList ((r.choiceParts.map canonicalize).flatMap choiceParts)
      = OrderedSet.ofList r.canonicalize.choiceParts := by
    cases r with
    | choice parts =>
      refine OrderedSet.ext ?_
      rw [choiceParts_canonicalize_choice, choiceParts,
        OrderedSet.toList_ofList_of_nodup (OrderedSet.nodup _)]
    | _ => exact congrArg OrderedSet.ofList (List.append_nil _)
  have parts : OrderedSet.ofList
        (((OrderedSet.ofList (members.flatMap choiceParts)).toList.map canonicalize).flatMap
          choiceParts)
      = OrderedSet.ofList ((members.map canonicalize).flatMap choiceParts) := by
    rw [List.flatMap_map, OrderedSet.ofList_flatMap_ofList, List.flatMap_assoc, List.flatMap_map]
    refine OrderedSet.ofList_flatMap_congr fun r _ => ?_
    rw [← each r, List.flatMap_map]
  have flattened : (choice members).canonicalize
      = makeChoice ((OrderedSet.ofList (members.flatMap choiceParts)).toList.map canonicalize) := by
    rw [canonicalize, canonicalizeAll_eq_map, makeChoice, makeChoice, parts]
  rw [flattened, makeChoice]
  split
  · rename_i part one
    rw [one]
    exact (canonical_canonicalize part).makeChoice_singleton.symm
  · rw [canonicalize, canonicalizeAll_eq_map]

theorem Desugars.canonicalize_unfoldNames (h : Desugars r s) (hidden : String → Bool)
    (expansions : String → Rule) : (r.unfoldNames hidden expansions).canonicalize
      = (s.unfoldNames hidden expansions).canonicalize := by
  induction h with
  | optional r =>
    simp only [unfoldNames, unfoldAll_eq_map, List.map_cons, List.map_nil, canonicalize_makeChoice]
    rfl
  | repeated r =>
    simp only [unfoldNames, unfoldAll_eq_map, List.map_cons, List.map_nil, canonicalize_makeSeq]
    rfl
  | inSeq before after _ ih =>
    simp only [unfoldNames, unfoldAll_eq_map, canonicalize_makeSeq, canonicalize,
      canonicalizeAll_eq_map, List.map_append, List.map_cons, ih]
  | inChoice before after _ ih =>
    simp only [unfoldNames, unfoldAll_eq_map, canonicalize_makeChoice, canonicalize,
      canonicalizeAll_eq_map, List.map_append, List.map_cons, ih]
  | inOptional _ ih => simp only [unfoldNames, canonicalize, ih]
  | inRepeated _ _ ih | inToken _ _ ih | inField _ _ ih => simp only [unfoldNames, canonicalize, ih]
  | inPrec _ _ _ ih | inAliased _ _ _ ih => simp only [unfoldNames, canonicalize, ih]

theorem Desugars.symbols_eq (h : Desugars r s) : r.symbols = s.symbols := by
  induction h with
  | optional r =>
    simp [symbols, occurrences, occurrencesAll, blank]
  | repeated r =>
    simp [symbols, occurrences, occurrencesAll, OrderedSet.ofList_append_self]
  | inSeq before after _ ih | inChoice before after _ ih =>
    simp only [symbols, occurrences, occurrencesAll_eq_flatMap, List.flatMap_append,
      List.flatMap_cons]
    exact OrderedSet.ofList_append_congr rfl (OrderedSet.ofList_append_congr ih rfl)
  | inOptional _ ih => exact ih
  | inRepeated _ _ ih | inToken _ _ ih | inField _ _ ih => exact ih
  | inPrec _ _ _ ih | inAliased _ _ _ ih => exact ih

theorem Desugars.isTokenShaped_eq (h : Desugars r s) : r.isTokenShaped = s.isTokenShaped := by
  induction h with
  | inPrec _ _ _ ih => exact ih
  | _ => rfl

theorem Desugars.isAliasedSymbol_eq (h : Desugars r s) :
    r.isAliasedSymbol = s.isAliasedSymbol := by
  induction h with
  | inAliased _ _ _ ih => exact ih
  | _ => rfl

theorem Desugars.isSymbolChoice_eq (h : Desugars r s) : r.isSymbolChoice = s.isSymbolChoice := by
  cases h with
  | optional r => simp [isSymbolChoice, isAliasedSymbol, blank]
  | inChoice before after inner =>
    cases before <;> simp [isSymbolChoice, inner.isAliasedSymbol_eq]
  | _ => rfl

theorem anyHasField_eq_any (rules : List Rule) : anyHasField rules = rules.any hasField := by
  induction rules with
  | nil => rfl
  | cons r rs ih => rw [anyHasField, List.any_cons, ih]

theorem Desugars.hasField_eq (h : Desugars r s) : r.hasField = s.hasField := by
  induction h with
  | optional | repeated => simp [hasField, anyHasField, blank]
  | inSeq before after _ ih | inChoice before after _ ih =>
    simp only [hasField, anyHasField_eq_any, List.any_append, List.any_cons, ih]
  | inOptional _ ih => exact ih
  | inRepeated _ _ ih | inToken _ _ ih => exact ih
  | inField => rfl
  | inPrec _ _ _ ih | inAliased _ _ _ ih => exact ih

theorem Desugars.nullable_eq (h : Desugars r s) (isNullable : String → Bool) :
    r.nullable isNullable = s.nullable isNullable := by
  induction h with
  | optional r | repeated r => simp [nullable, everyNullable, someNullable, blank]
  | inSeq before after _ ih =>
    simp only [nullable, everyNullable_eq_all, List.all_append, List.all_cons, ih]
  | inChoice before after _ ih =>
    simp only [nullable, someNullable_eq_any, List.any_append, List.any_cons, ih]
  | inRepeated repetition _ ih =>
    cases repetition with
    | zeroOrMore => rfl
    | oneOrMore => exact ih
  | inOptional => rfl
  | inToken _ _ ih | inField _ _ ih => exact ih
  | inPrec _ _ _ ih | inAliased _ _ _ ih => exact ih

/-- Where two members are nullable alike and alone derive the same names, so do sequences. -/
theorem unitMembers_congr {isNullable : String → Bool}
    (null : r.nullable isNullable = s.nullable isNullable)
    (units : OrderedSet.ofList (r.unitOccurrences isNullable)
      = OrderedSet.ofList (s.unitOccurrences isNullable)) (before : List Rule) (after : List Rule)
    (passed : Bool) :
    OrderedSet.ofList (unitMembers isNullable passed (before ++ r :: after))
      = OrderedSet.ofList (unitMembers isNullable passed (before ++ s :: after)) := by
  induction before generalizing passed with
  | nil =>
    simp only [List.nil_append, unitMembers, null]
    refine OrderedSet.ofList_append_congr ?_ rfl
    split
    · exact units
    · rfl
  | cons head before ih =>
    simp only [List.cons_append, unitMembers]
    refine OrderedSet.ofList_append_congr ?_ (ih _)
    simp only [everyNullable_eq_all, List.all_append, List.all_cons, null]

theorem unitAlternatives_eq_flatMap (isNullable : String → Bool) (rules : List Rule) :
    unitAlternatives isNullable rules = rules.flatMap (unitOccurrences isNullable) := by
  induction rules with
  | nil => rfl
  | cons r rs ih => rw [unitAlternatives, List.flatMap_cons, ih]

theorem Desugars.units_eq (h : Desugars r s) (isNullable : String → Bool) :
    r.units isNullable = s.units isNullable := by
  induction h with
  | optional r => simp [units, unitOccurrences, unitAlternatives, unitMembers, blank]
  | repeated r =>
    simp only [units, unitOccurrences, unitMembers, everyNullable, nullable]
    cases r.nullable isNullable with
    | true => simp [OrderedSet.ofList_append_self]
    | false => simp
  | inSeq before after inner ih =>
    exact unitMembers_congr (inner.nullable_eq isNullable) ih before after true
  | inChoice before after _ ih =>
    simp only [units, unitOccurrences, unitAlternatives_eq_flatMap, List.flatMap_append,
      List.flatMap_cons]
    exact OrderedSet.ofList_append_congr rfl (OrderedSet.ofList_append_congr ih rfl)
  | inOptional _ ih => exact ih
  | inRepeated _ _ ih | inToken _ _ ih | inField _ _ ih => exact ih
  | inPrec _ _ _ ih | inAliased _ _ _ ih => exact ih

/-- Two rules that no part of a compilation can tell apart. -/
structure Alike (r s : Rule) : Prop where
  canonicalize : r.canonicalize = s.canonicalize
  unfoldNames : ∀ hidden expansions, (r.unfoldNames hidden expansions).canonicalize
    = (s.unfoldNames hidden expansions).canonicalize
  symbols : r.symbols = s.symbols
  isTokenShaped : r.isTokenShaped = s.isTokenShaped
  isSymbolChoice : r.isSymbolChoice = s.isSymbolChoice
  hasField : r.hasField = s.hasField
  nullable : r.nullable = s.nullable
  units : ∀ isNullable, r.units isNullable = s.units isNullable

theorem Alike.refl (r : Rule) : Alike r r :=
  ⟨rfl, fun _ _ => rfl, rfl, rfl, rfl, rfl, rfl, fun _ => rfl⟩

theorem Desugars.alike (h : Desugars r s) : Alike r s where
  canonicalize := h.canonicalize_eq
  unfoldNames := h.canonicalize_unfoldNames
  symbols := h.symbols_eq
  isTokenShaped := h.isTokenShaped_eq
  isSymbolChoice := h.isSymbolChoice_eq
  hasField := h.hasField_eq
  nullable := funext h.nullable_eq
  units := h.units_eq

end Productions.Rule
