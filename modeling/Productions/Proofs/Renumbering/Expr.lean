import Productions.Compiled.Basic
import Productions.Proofs.Ambiguity.Declared
import Productions.Proofs.Ordered

/-! Expressions under new numbers for their symbols. What is read off an expression is read off its
renumbered form by the old symbols, and flattening does not see the numbers as long as different
symbols stay different. -/
namespace Productions

/-- New numbers for variables and lexical entries. External tokens keep theirs. -/
structure Renumbering where
  rule : Nat → Nat
  lexical : Nat → Nat

namespace Renumbering

def symbol (ρ : Renumbering) : Symbol → Symbol
  | .rule id => .rule (ρ.rule id)
  | .lexical id => .lexical (ρ.lexical id)
  | .external id => .external id

end Renumbering

namespace Expr

mutual

def renumber (ρ : Renumbering) : Expr → Expr
  | symbol s => symbol (ρ.symbol s)
  | seq members => seq (renumberAll ρ members)
  | choice members => choice (renumberAll ρ members)
  | repeated content => repeated (renumber ρ content)
  | prec value assoc content => prec value assoc (renumber ρ content)
  | aliased content value named => aliased (renumber ρ content) value named
  | field name content => field name (renumber ρ content)

def renumberAll (ρ : Renumbering) : List Expr → List Expr
  | [] => []
  | e :: es => renumber ρ e :: renumberAll ρ es

end

variable {ρ ρ' : Renumbering}

theorem renumberAll_eq_map (es : List Expr) : renumberAll ρ es = es.map (renumber ρ) := by
  induction es with
  | nil => rfl
  | cons e es ih => rw [renumberAll, ih, List.map_cons]

mutual

theorem renumber_renumber : (e : Expr) → (∀ s ∈ e.symbols, ρ'.symbol (ρ.symbol s) = s) →
    (e.renumber ρ).renumber ρ' = e
  | symbol s, h => by rw [renumber, renumber, h s (List.mem_singleton_self s)]
  | seq members, h | choice members, h => by
    rw [renumber, renumber, renumberAll_renumberAll members h]
  | repeated content, h | prec _ _ content, h | aliased content _ _, h | field _ content, h => by
    rw [renumber, renumber, renumber_renumber content h]

theorem renumberAll_renumberAll : (es : List Expr) →
    (∀ s ∈ symbolsAll es, ρ'.symbol (ρ.symbol s) = s) →
    renumberAll ρ' (renumberAll ρ es) = es
  | [], _ => rfl
  | e :: es, h => by
    simp only [symbolsAll, List.mem_append] at h
    rw [renumberAll, renumberAll, renumber_renumber e fun s hs => h s (.inl hs),
      renumberAll_renumberAll es fun s hs => h s (.inr hs)]

end

theorem eq_of_renumber_eq {e f : Expr} (he : ∀ s ∈ e.symbols, ρ'.symbol (ρ.symbol s) = s)
    (hf : ∀ s ∈ f.symbols, ρ'.symbol (ρ.symbol s) = s) (same : e.renumber ρ = f.renumber ρ) :
    e = f := by
  rw [← renumber_renumber e he, same, renumber_renumber f hf]

theorem seqParts_renumber (e : Expr) :
    (e.renumber ρ).seqParts = e.seqParts.map (renumber ρ) := by
  cases e with
  | seq members => exact renumberAll_eq_map members
  | _ => rfl

theorem choiceParts_renumber (e : Expr) :
    (e.renumber ρ).choiceParts = e.choiceParts.map (renumber ρ) := by
  cases e with
  | choice members => exact renumberAll_eq_map members
  | _ => rfl

theorem renumber_makeSeq (es : List Expr) :
    (makeSeq es).renumber ρ = makeSeq (renumberAll ρ es) := by
  have parts : (renumberAll ρ es).flatMap seqParts = (es.flatMap seqParts).map (renumber ρ) := by
    rw [renumberAll_eq_map, List.flatMap_map, List.map_flatMap]
    exact List.flatMap_congr fun e _ => seqParts_renumber e
  rw [makeSeq, makeSeq, parts]
  rcases es.flatMap seqParts with _ | ⟨e, _ | ⟨f, rest⟩⟩
  · rfl
  · rfl
  · rw [renumber, renumberAll_eq_map]
    rfl

theorem symbols_of_mem_choiceParts {es : List Expr} {part : Expr}
    (mem : part ∈ es.flatMap choiceParts) : ∀ s ∈ part.symbols, s ∈ symbolsAll es := by
  obtain ⟨e, he, mem⟩ := List.mem_flatMap.1 mem
  intro s hs
  rw [symbolsAll_eq_flatMap, List.mem_flatMap]
  refine ⟨e, he, ?_⟩
  cases e with
  | choice members =>
    rw [symbols, symbolsAll_eq_flatMap]
    exact List.mem_flatMap.2 ⟨part, mem, hs⟩
  | _ =>
    rw [List.mem_singleton.1 mem] at hs
    exact hs

/-- Equal alternatives are equal under both numberings. -/
theorem renumber_makeChoice (es : List Expr)
    (undone : ∀ s ∈ symbolsAll es, ρ'.symbol (ρ.symbol s) = s) :
    (makeChoice es).renumber ρ = makeChoice (renumberAll ρ es) := by
  have parts : (renumberAll ρ es).flatMap choiceParts
      = (es.flatMap choiceParts).map (renumber ρ) := by
    rw [renumberAll_eq_map, List.flatMap_map, List.map_flatMap]
    exact List.flatMap_congr fun e _ => choiceParts_renumber e
  have kept : (OrderedSet.ofList ((es.flatMap choiceParts).map (renumber ρ))).toList
      = (OrderedSet.ofList (es.flatMap choiceParts)).toList.map (renumber ρ) := by
    refine OrderedSet.toList_ofList_map fun e he f hf same => ?_
    exact eq_of_renumber_eq (fun s hs => undone s (symbols_of_mem_choiceParts he s hs))
      (fun s hs => undone s (symbols_of_mem_choiceParts hf s hs)) same
  rw [makeChoice, makeChoice, parts, kept]
  rcases (OrderedSet.ofList (es.flatMap choiceParts)).toList with _ | ⟨e, _ | ⟨f, rest⟩⟩
  · rfl
  · rfl
  · rw [renumber, renumberAll_eq_map]
    rfl

mutual

theorem symbols_renumber : (e : Expr) → (e.renumber ρ).symbols = e.symbols.map ρ.symbol
  | symbol _ => rfl
  | seq members | choice members => symbolsAll_renumberAll members
  | repeated content | prec _ _ content | aliased content _ _ | field _ content =>
    symbols_renumber content

theorem symbolsAll_renumberAll : (es : List Expr) →
    symbolsAll (renumberAll ρ es) = (symbolsAll es).map ρ.symbol
  | [] => rfl
  | e :: es => by
    rw [renumberAll, symbolsAll, symbolsAll, List.map_append, symbols_renumber e,
      symbolsAll_renumberAll es]

end

theorem alternatives_renumber (e : Expr) :
    (e.renumber ρ).alternatives = e.alternatives.map (renumber ρ) := by
  cases e with
  | choice members => exact renumberAll_eq_map members
  | _ => rfl

theorem symbols_of_mem_alternatives {e a : Expr} (mem : a ∈ e.alternatives) :
    ∀ s ∈ a.symbols, s ∈ e.symbols := by
  intro s hs
  cases e with
  | choice members =>
    rw [symbols, symbolsAll_eq_flatMap]
    exact List.mem_flatMap.2 ⟨a, mem, hs⟩
  | _ =>
    rw [List.mem_singleton.1 mem] at hs
    exact hs

theorem Offers.renumber {e : Expr} {i : Nat} (h : e.Offers i) :
    (e.renumber ρ).Offers (ρ.rule i) := by
  induction h with
  | symbol i => exact .symbol _
  | choice mem _ ih =>
    refine .choice ?_ ih
    rw [renumberAll_eq_map]
    exact List.mem_map_of_mem mem
  | prec _ ih => exact .prec ih
  | aliased _ ih => exact .aliased ih
  | field _ ih => exact .field ih

section Judged

variable {f f' p p' : Symbol → Bool}

mutual

theorem nullable_renumber : (e : Expr) → (∀ s ∈ e.symbols, f' (ρ.symbol s) = f s) →
    (e.renumber ρ).nullable f' = e.nullable f
  | symbol s, h => h s (List.mem_singleton_self s)
  | seq members, h => everyNullable_renumberAll members h
  | choice members, h => someNullable_renumberAll members h
  | repeated _, _ => rfl
  | prec _ _ content, h | aliased content _ _, h | field _ content, h =>
    nullable_renumber content h

theorem everyNullable_renumberAll : (es : List Expr) →
    (∀ s ∈ symbolsAll es, f' (ρ.symbol s) = f s) →
    everyNullable f' (renumberAll ρ es) = everyNullable f es
  | [], _ => rfl
  | e :: es, h => by
    simp only [symbolsAll, List.mem_append] at h
    rw [renumberAll, everyNullable, everyNullable, nullable_renumber e fun s hs => h s (.inl hs),
      everyNullable_renumberAll es fun s hs => h s (.inr hs)]

theorem someNullable_renumberAll : (es : List Expr) →
    (∀ s ∈ symbolsAll es, f' (ρ.symbol s) = f s) →
    someNullable f' (renumberAll ρ es) = someNullable f es
  | [], _ => rfl
  | e :: es, h => by
    simp only [symbolsAll, List.mem_append] at h
    rw [renumberAll, someNullable, someNullable, nullable_renumber e fun s hs => h s (.inl hs),
      someNullable_renumberAll es fun s hs => h s (.inr hs)]

end

mutual

theorem hasEmptyRepeat_renumber : (e : Expr) → (∀ s ∈ e.symbols, f' (ρ.symbol s) = f s) →
    Validation.hasEmptyRepeat f' (e.renumber ρ) = Validation.hasEmptyRepeat f e
  | symbol _, _ => rfl
  | seq members, h | choice members, h => anyHasEmptyRepeat_renumberAll members h
  | repeated content, h => by
    rw [renumber, Validation.hasEmptyRepeat, Validation.hasEmptyRepeat,
      nullable_renumber content h, hasEmptyRepeat_renumber content h]
  | prec _ _ content, h | aliased content _ _, h | field _ content, h =>
    hasEmptyRepeat_renumber content h

theorem anyHasEmptyRepeat_renumberAll : (es : List Expr) →
    (∀ s ∈ symbolsAll es, f' (ρ.symbol s) = f s) →
    Validation.anyHasEmptyRepeat f' (renumberAll ρ es) = Validation.anyHasEmptyRepeat f es
  | [], _ => rfl
  | e :: es, h => by
    simp only [symbolsAll, List.mem_append] at h
    rw [renumberAll, Validation.anyHasEmptyRepeat, Validation.anyHasEmptyRepeat,
      hasEmptyRepeat_renumber e fun s hs => h s (.inl hs),
      anyHasEmptyRepeat_renumberAll es fun s hs => h s (.inr hs)]

end

mutual

theorem startsWith_renumber : (e : Expr) → (∀ s ∈ e.symbols, p' (ρ.symbol s) = p s) →
    (∀ s ∈ e.symbols, f' (ρ.symbol s) = f s) →
    (e.renumber ρ).startsWith p' f' = e.startsWith p f
  | symbol s, hp, _ => hp s (List.mem_singleton_self s)
  | seq members, hp, hf => seqStartsWith_renumberAll members hp hf
  | choice members, hp, hf => someStartsWith_renumberAll members hp hf
  | repeated content, hp, hf | prec _ _ content, hp, hf | aliased content _ _, hp, hf
  | field _ content, hp, hf => startsWith_renumber content hp hf

theorem seqStartsWith_renumberAll : (es : List Expr) →
    (∀ s ∈ symbolsAll es, p' (ρ.symbol s) = p s) → (∀ s ∈ symbolsAll es, f' (ρ.symbol s) = f s) →
    seqStartsWith p' f' (renumberAll ρ es) = seqStartsWith p f es
  | [], _, _ => rfl
  | e :: es, hp, hf => by
    simp only [symbolsAll, List.mem_append] at hp hf
    rw [renumberAll, seqStartsWith, seqStartsWith,
      startsWith_renumber e (fun s hs => hp s (.inl hs)) fun s hs => hf s (.inl hs),
      nullable_renumber e fun s hs => hf s (.inl hs),
      seqStartsWith_renumberAll es (fun s hs => hp s (.inr hs)) fun s hs => hf s (.inr hs)]

theorem someStartsWith_renumberAll : (es : List Expr) →
    (∀ s ∈ symbolsAll es, p' (ρ.symbol s) = p s) → (∀ s ∈ symbolsAll es, f' (ρ.symbol s) = f s) →
    someStartsWith p' f' (renumberAll ρ es) = someStartsWith p f es
  | [], _, _ => rfl
  | e :: es, hp, hf => by
    simp only [symbolsAll, List.mem_append] at hp hf
    rw [renumberAll, someStartsWith, someStartsWith,
      startsWith_renumber e (fun s hs => hp s (.inl hs)) fun s hs => hf s (.inl hs),
      someStartsWith_renumberAll es (fun s hs => hp s (.inr hs)) fun s hs => hf s (.inr hs)]

end

mutual

theorem endsWith_renumber : (e : Expr) → (∀ s ∈ e.symbols, p' (ρ.symbol s) = p s) →
    (∀ s ∈ e.symbols, f' (ρ.symbol s) = f s) →
    (e.renumber ρ).endsWith p' f' = e.endsWith p f
  | symbol s, hp, _ => hp s (List.mem_singleton_self s)
  | seq members, hp, hf => seqEndsWith_renumberAll members hp hf
  | choice members, hp, hf => someEndsWith_renumberAll members hp hf
  | repeated content, hp, hf | prec _ _ content, hp, hf | aliased content _ _, hp, hf
  | field _ content, hp, hf => endsWith_renumber content hp hf

theorem seqEndsWith_renumberAll : (es : List Expr) →
    (∀ s ∈ symbolsAll es, p' (ρ.symbol s) = p s) → (∀ s ∈ symbolsAll es, f' (ρ.symbol s) = f s) →
    seqEndsWith p' f' (renumberAll ρ es) = seqEndsWith p f es
  | [], _, _ => rfl
  | e :: es, hp, hf => by
    simp only [symbolsAll, List.mem_append] at hp hf
    rw [renumberAll, seqEndsWith, seqEndsWith,
      endsWith_renumber e (fun s hs => hp s (.inl hs)) fun s hs => hf s (.inl hs),
      everyNullable_renumberAll es fun s hs => hf s (.inr hs),
      seqEndsWith_renumberAll es (fun s hs => hp s (.inr hs)) fun s hs => hf s (.inr hs)]

theorem someEndsWith_renumberAll : (es : List Expr) →
    (∀ s ∈ symbolsAll es, p' (ρ.symbol s) = p s) → (∀ s ∈ symbolsAll es, f' (ρ.symbol s) = f s) →
    someEndsWith p' f' (renumberAll ρ es) = someEndsWith p f es
  | [], _, _ => rfl
  | e :: es, hp, hf => by
    simp only [symbolsAll, List.mem_append] at hp hf
    rw [renumberAll, someEndsWith, someEndsWith,
      endsWith_renumber e (fun s hs => hp s (.inl hs)) fun s hs => hf s (.inl hs),
      someEndsWith_renumberAll es (fun s hs => hp s (.inr hs)) fun s hs => hf s (.inr hs)]

end

end Judged

mutual

theorem levelNames_renumber : (e : Expr) → (e.renumber ρ).levelNames = e.levelNames
  | symbol _ => rfl
  | seq members | choice members => levelNamesAll_renumberAll members
  | prec value _ content => congrArg (value.name?.toList ++ ·) (levelNames_renumber content)
  | repeated content | aliased content _ _ | field _ content => levelNames_renumber content

theorem levelNamesAll_renumberAll : (es : List Expr) →
    levelNamesAll (renumberAll ρ es) = levelNamesAll es
  | [] => rfl
  | e :: es => by
    rw [renumberAll, levelNamesAll, levelNamesAll, levelNames_renumber e,
      levelNamesAll_renumberAll es]

end

mutual

theorem resolveLevels_renumber (levels : Levels) : (e : Expr) →
    (e.renumber ρ).resolveLevels levels = (e.resolveLevels levels).renumber ρ
  | symbol _ => rfl
  | seq members | choice members => by
    simp only [renumber, resolveLevels, resolveLevelsAll_renumberAll levels members]
  | repeated content | prec _ _ content | aliased content _ _ | field _ content => by
    simp only [renumber, resolveLevels, resolveLevels_renumber levels content]

theorem resolveLevelsAll_renumberAll (levels : Levels) : (es : List Expr) →
    resolveLevelsAll levels (renumberAll ρ es) = renumberAll ρ (resolveLevelsAll levels es)
  | [] => rfl
  | e :: es => by
    rw [renumberAll, resolveLevelsAll, resolveLevelsAll, renumberAll,
      resolveLevels_renumber levels e, resolveLevelsAll_renumberAll levels es]

end

end Expr

namespace Annotation

variable {ρ : Renumbering}

theorem collect_renumber (e : Expr) :
    ∀ found, collect found (e.renumber ρ) = collect found e := by
  induction e with
  | prec value assoc content ih =>
    intro found
    cases assoc <;> simp only [Expr.renumber, collect, ih]
  | _ => intro found; simp only [Expr.renumber, collect]

theorem of_renumber (e : Expr) : Annotation.of (e.renumber ρ) = Annotation.of e := by
  unfold Annotation.of
  rw [collect_renumber]

end Annotation

/-! How often a field occurs does not depend on the nodes that stand in it, so it does not depend on
what the numbers of symbols are. -/

def FieldCount.Agree (a b : FieldCount) : Prop := a.min = b.min ∧ a.max = b.max

abbrev FieldCounts.Agree (a b : FieldCounts) : Prop := OrderedMap.Related FieldCount.Agree a b

def FieldInfo.Agree (a b : FieldInfo) : Prop := a.multiple = b.multiple ∧ a.required = b.required

namespace FieldCount

variable {a a' b b' : FieldCount}

theorem Agree.refl (a : FieldCount) : a.Agree a := ⟨rfl, rfl⟩

theorem Agree.add (h : a.Agree a') (h' : b.Agree b') : (a.add b).Agree (a'.add b') := by
  simp only [Agree, FieldCount.add, h.1, h.2, h'.1, h'.2, and_self]

theorem Agree.star (h : a.Agree a') : a.star.Agree a'.star := by
  simp only [Agree, FieldCount.star, h.2, and_self]

theorem Agree.info (h : a.Agree a') : a.info.Agree a'.info := by
  simp only [FieldInfo.Agree, FieldCount.info, h.1, h.2, and_self]

end FieldCount

namespace FieldCounts

variable {a a' b b' : FieldCounts} {as as' : List FieldCounts}

theorem Agree.sum (h : a.Agree a') (h' : b.Agree b') : (sum a b).Agree (sum a' b') := by
  refine List.rel_foldl ?_ h h'
  rintro m m' total ⟨name, x⟩ ⟨_, x'⟩ ⟨rfl, same⟩
  exact total.insert _ ((total.getD _ (.refl _)).add same)

theorem least_eq (h : List.Forall₂ Agree as as') (name : String) :
    least name as = least name as' := by
  rw [least, least, map_eq_of_forall₂ h fun _ _ same => (same.getD name (.refl .zero)).1]

theorem Agree.join (each : List.Forall₂ Agree as as') (h : a.Agree a') (h' : b.Agree b') :
    (join as a b).Agree (join as' a' b') := by
  refine List.rel_foldl ?_ h h'
  rintro m m' total ⟨name, x⟩ ⟨_, x'⟩ ⟨rfl, same⟩
  refine total.insert _ ⟨least_eq each _, ?_⟩
  rw [(total.getD _ (.refl .zero)).2, same.2]

theorem agree_choice (each : List.Forall₂ Agree as as') : (choice as).Agree (choice as') :=
  List.rel_foldl (fun {_ _} total {_ _} same => total.join each same) (.nil) each

end FieldCounts

namespace NormalForm

variable {ρ : Renumbering} (m m' : NormalForm)

mutual

theorem fieldCounts_renumber : (e : Expr) →
    (m.fieldCounts e).Agree (m'.fieldCounts (e.renumber ρ))
  | .symbol _ => by
    rw [Expr.renumber, fieldCounts, fieldCounts]
    exact .nil
  | .seq members => by
    rw [Expr.renumber, fieldCounts, fieldCounts, sequenceCounts, sequenceCounts]
    exact List.rel_foldl (fun {_ _} total {_ _} same => total.sum same) .nil
      (countsOfEach_renumberAll members)
  | .choice members => by
    rw [Expr.renumber, fieldCounts, fieldCounts]
    exact FieldCounts.agree_choice (countsOfEach_renumberAll members)
  | .repeated content => by
    rw [Expr.renumber, fieldCounts, fieldCounts]
    exact (fieldCounts_renumber content).mapValues fun _ _ _ same => same.star
  | .prec _ _ content | .aliased content _ _ => by
    rw [Expr.renumber, fieldCounts, fieldCounts]
    exact fieldCounts_renumber content
  | .field name content => by
    have inner := fieldCounts_renumber content
    rw [Expr.renumber, fieldCounts, fieldCounts]
    exact inner.insert name ((inner.getD name (.refl _)).add ⟨rfl, rfl⟩)

theorem countsOfEach_renumberAll : (es : List Expr) → List.Forall₂ FieldCounts.Agree
    (m.countsOfEach es) (m'.countsOfEach (Expr.renumberAll ρ es))
  | [] => by
    rw [Expr.renumberAll, countsOfEach, countsOfEach]
    exact .nil
  | e :: es => by
    rw [Expr.renumberAll, countsOfEach, countsOfEach]
    exact .cons (fieldCounts_renumber e) (countsOfEach_renumberAll es)

end

theorem fieldsOf_renumber (e : Expr) : OrderedMap.Related FieldInfo.Agree (m.fieldsOf e)
    (m'.fieldsOf (e.renumber ρ)) :=
  (fieldCounts_renumber m m' e).mapValues fun _ _ _ same => same.info

end NormalForm

end Productions
