import Productions.Precedence.Resolution
import Productions.Proofs.Nullability
import Productions.Proofs.Repeats

/-! Precedences and empty texts. Giving a named precedence its level changes neither what derives
the empty text nor what is repeated. -/
namespace Productions

variable {levels : Levels}

theorem Levels.name?_resolve (value : Precedence) (assoc : Assoc) :
    (levels.resolve value assoc).1.name? = none := by
  cases value with
  | integer level => rfl
  | name name =>
    rw [Levels.resolve]
    cases levels.get? name <;> rfl

namespace Rule

theorem resolveLevelsAll_eq_map (rules : List Rule) :
    resolveLevelsAll levels rules = rules.map (resolveLevels levels) := by
  induction rules with
  | nil => rfl
  | cons r rs ih => rw [resolveLevelsAll, ih, List.map_cons]

theorem everyNullable_map {isNullable : String → Bool} {change : Rule → Rule} {rules : List Rule}
    (h : ∀ r ∈ rules, (change r).nullable isNullable = r.nullable isNullable) :
    everyNullable isNullable (rules.map change) = everyNullable isNullable rules := by
  induction rules with
  | nil => rfl
  | cons r rs ih =>
    rw [List.map_cons, everyNullable, everyNullable, h r (by simp), ih fun t ht => h t (by simp [ht])]

theorem someNullable_map {isNullable : String → Bool} {change : Rule → Rule} {rules : List Rule}
    (h : ∀ r ∈ rules, (change r).nullable isNullable = r.nullable isNullable) :
    someNullable isNullable (rules.map change) = someNullable isNullable rules := by
  induction rules with
  | nil => rfl
  | cons r rs ih =>
    rw [List.map_cons, someNullable, someNullable, h r (by simp), ih fun t ht => h t (by simp [ht])]

theorem nullable_resolveLevels {isNullable : String → Bool} (r : Rule) :
    (r.resolveLevels levels).nullable isNullable = r.nullable isNullable := by
  induction r with
  | terminal | symbol | optional => rfl
  | seq members ih =>
    rw [resolveLevels, nullable, nullable, resolveLevelsAll_eq_map, everyNullable_map ih]
  | choice members ih =>
    rw [resolveLevels, nullable, nullable, resolveLevelsAll_eq_map, someNullable_map ih]
  | repeated content repetition ih =>
    cases repetition with
    | zeroOrMore => rfl
    | oneOrMore => exact ih
  | token _ _ ih | prec _ _ _ ih | aliased _ _ _ ih | field _ _ ih => exact ih

theorem levelNames_resolveLevels (r : Rule) : (r.resolveLevels levels).levelNames = [] := by
  have all (rules : List Rule) (ih : ∀ r ∈ rules, (r.resolveLevels levels).levelNames = []) :
      levelNamesAll (rules.map (resolveLevels levels)) = [] := by
    induction rules with
    | nil => rfl
    | cons r rs ihs =>
      rw [List.map_cons, levelNamesAll, ih r (by simp), ihs fun s hs => ih s (by simp [hs])]
      rfl
  induction r with
  | terminal | symbol => rfl
  | seq members ih | choice members ih =>
    rw [resolveLevels, levelNames, resolveLevelsAll_eq_map, all members ih]
  | prec value assoc content ih =>
    rw [resolveLevels, levelNames, ih, Levels.name?_resolve]
    rfl
  | repeated _ _ ih | optional _ ih | token _ _ ih | aliased _ _ _ ih | field _ _ ih => exact ih

theorem resolveLevels_eq_self {r : Rule} (h : r.levelNames = []) : r.resolveLevels levels = r := by
  have all (rules : List Rule) (h : levelNamesAll rules = [])
      (ih : ∀ r ∈ rules, r.levelNames = [] → r.resolveLevels levels = r) :
      rules.map (resolveLevels levels) = rules := by
    induction rules with
    | nil => rfl
    | cons r rs ihs =>
      obtain ⟨first, rest⟩ := List.append_eq_nil_iff.1 h
      rw [List.map_cons, ih r (by simp) first, ihs rest fun s hs => ih s (by simp [hs])]
  induction r with
  | terminal | symbol => rfl
  | seq members ih | choice members ih =>
    rw [resolveLevels, resolveLevelsAll_eq_map, all members h ih]
  | prec value assoc content ih =>
    obtain ⟨first, rest⟩ := List.append_eq_nil_iff.1 h
    cases value with
    | integer level => rw [resolveLevels, ih rest, Levels.resolve]
    | name name => cases first
  | repeated _ _ ih | optional _ ih | token _ _ ih | aliased _ _ _ ih | field _ _ ih =>
    rw [resolveLevels, ih h]

theorem repeats_resolveLevels (r : Rule) :
    (r.resolveLevels levels).repeats = r.repeats.map (resolveLevels levels) := by
  have all (rules : List Rule)
      (ih : ∀ r ∈ rules, (r.resolveLevels levels).repeats = r.repeats.map (resolveLevels levels)) :
      repeatsAll (rules.map (resolveLevels levels))
        = (repeatsAll rules).map (resolveLevels levels) := by
    induction rules with
    | nil => rfl
    | cons r rs ihs =>
      rw [List.map_cons, repeatsAll, repeatsAll, List.map_append, ih r (by simp),
        ihs fun r hr => ih r (by simp [hr])]
  induction r with
  | terminal | symbol => rfl
  | seq members ih | choice members ih =>
    rw [resolveLevels, repeats, resolveLevelsAll_eq_map, all members ih, repeats]
  | repeated content _ ih => rw [resolveLevels, repeats, repeats, List.map_cons, ih]
  | optional _ ih | token _ _ ih | prec _ _ _ ih | aliased _ _ _ ih | field _ _ ih => exact ih

theorem hasEmptyTokenRepeat_resolveLevels (r : Rule) :
    Validation.hasEmptyTokenRepeat (r.resolveLevels levels)
      = Validation.hasEmptyTokenRepeat r := by
  rw [Bool.eq_iff_iff, hasEmptyTokenRepeat_iff, hasEmptyTokenRepeat_iff, repeats_resolveLevels]
  simp only [List.mem_map, exists_exists_and_eq_and, nullable_resolveLevels]

end Rule

namespace Expr

theorem resolveLevelsAll_eq_map (es : List Expr) :
    resolveLevelsAll levels es = es.map (resolveLevels levels) := by
  induction es with
  | nil => rfl
  | cons e es ih => rw [resolveLevelsAll, ih, List.map_cons]

theorem everyNullable_map {isNullable : Symbol → Bool} {change : Expr → Expr} {es : List Expr}
    (h : ∀ e ∈ es, (change e).nullable isNullable = e.nullable isNullable) :
    everyNullable isNullable (es.map change) = everyNullable isNullable es := by
  induction es with
  | nil => rfl
  | cons e es ih =>
    rw [List.map_cons, everyNullable, everyNullable, h e (by simp), ih fun t ht => h t (by simp [ht])]

theorem someNullable_map {isNullable : Symbol → Bool} {change : Expr → Expr} {es : List Expr}
    (h : ∀ e ∈ es, (change e).nullable isNullable = e.nullable isNullable) :
    someNullable isNullable (es.map change) = someNullable isNullable es := by
  induction es with
  | nil => rfl
  | cons e es ih =>
    rw [List.map_cons, someNullable, someNullable, h e (by simp), ih fun t ht => h t (by simp [ht])]

theorem nullable_resolveLevels {isNullable : Symbol → Bool} (e : Expr) :
    (e.resolveLevels levels).nullable isNullable = e.nullable isNullable := by
  induction e with
  | symbol | repeated => rfl
  | seq members ih =>
    rw [resolveLevels, nullable, nullable, resolveLevelsAll_eq_map, everyNullable_map ih]
  | choice members ih =>
    rw [resolveLevels, nullable, nullable, resolveLevelsAll_eq_map, someNullable_map ih]
  | prec _ _ _ ih | aliased _ _ _ ih | field _ _ ih => exact ih

theorem symbols_resolveLevels (e : Expr) : (e.resolveLevels levels).symbols = e.symbols := by
  have all (es : List Expr) (ih : ∀ e ∈ es, (e.resolveLevels levels).symbols = e.symbols) :
      symbolsAll (es.map (resolveLevels levels)) = symbolsAll es := by
    rw [symbolsAll_eq_flatMap, symbolsAll_eq_flatMap, List.flatMap_map]
    exact List.flatMap_congr ih
  induction e with
  | symbol => rfl
  | seq members ih | choice members ih =>
    rw [resolveLevels, symbols, resolveLevelsAll_eq_map, all members ih, symbols]
  | repeated _ ih | prec _ _ _ ih | aliased _ _ _ ih | field _ _ ih => exact ih

/-- Settling precedences leaves no names of them. -/
theorem levelNames_resolveLevels (e : Expr) : (e.resolveLevels levels).levelNames = [] := by
  have all (es : List Expr) (ih : ∀ e ∈ es, (e.resolveLevels levels).levelNames = []) :
      levelNamesAll (es.map (resolveLevels levels)) = [] := by
    induction es with
    | nil => rfl
    | cons e es ihs =>
      rw [List.map_cons, levelNamesAll, ih e (by simp), ihs fun f hf => ih f (by simp [hf])]
      rfl
  induction e with
  | symbol => rfl
  | seq members ih | choice members ih =>
    rw [resolveLevels, levelNames, resolveLevelsAll_eq_map, all members ih]
  | prec value assoc content ih =>
    rw [resolveLevels, levelNames, ih, Levels.name?_resolve]
    rfl
  | repeated _ ih | aliased _ _ _ ih | field _ _ ih => exact ih

theorem resolveLevels_eq_self {e : Expr} (h : e.levelNames = []) : e.resolveLevels levels = e := by
  have all (es : List Expr) (h : levelNamesAll es = [])
      (ih : ∀ e ∈ es, e.levelNames = [] → e.resolveLevels levels = e) :
      es.map (resolveLevels levels) = es := by
    induction es with
    | nil => rfl
    | cons e es ihs =>
      obtain ⟨first, rest⟩ := List.append_eq_nil_iff.1 h
      rw [List.map_cons, ih e (by simp) first, ihs rest fun f hf => ih f (by simp [hf])]
  induction e with
  | symbol => rfl
  | seq members ih | choice members ih =>
    rw [resolveLevels, resolveLevelsAll_eq_map, all members h ih]
  | prec value assoc content ih =>
    obtain ⟨first, rest⟩ := List.append_eq_nil_iff.1 h
    cases value with
    | integer level => rw [resolveLevels, ih rest, Levels.resolve]
    | name name => cases first
  | repeated _ ih | aliased _ _ _ ih | field _ _ ih => rw [resolveLevels, ih h]

theorem repeats_resolveLevels (e : Expr) :
    (e.resolveLevels levels).repeats = e.repeats.map (resolveLevels levels) := by
  have all (es : List Expr)
      (ih : ∀ e ∈ es, (e.resolveLevels levels).repeats = e.repeats.map (resolveLevels levels)) :
      repeatsAll (es.map (resolveLevels levels))
        = (repeatsAll es).map (resolveLevels levels) := by
    induction es with
    | nil => rfl
    | cons e es ihs =>
      rw [List.map_cons, repeatsAll, repeatsAll, List.map_append, ih e (by simp),
        ihs fun e he => ih e (by simp [he])]
  induction e with
  | symbol => rfl
  | seq members ih | choice members ih =>
    rw [resolveLevels, repeats, resolveLevelsAll_eq_map, all members ih, repeats]
  | repeated content ih => rw [resolveLevels, repeats, repeats, List.map_cons, ih]
  | prec _ _ _ ih | aliased _ _ _ ih | field _ _ ih => exact ih

theorem nullableIds_resolveLevels (terminal : Symbol → Bool) (bodies : List Expr) :
    nullableIds terminal (bodies.map (resolveLevels levels)) = nullableIds terminal bodies := by
  have numbered : (bodies.map (resolveLevels levels)).zipIdx.map Prod.swap
      = (bodies.zipIdx.map Prod.swap).map (Prod.map id (resolveLevels levels)) := by
    rw [List.zipIdx_map, List.map_map, List.map_map]
    rfl
  rw [nullableIds, numbered, OrderedSet.leastClosed_map]
  simp only [nullable_resolveLevels]
  rfl

end Expr

namespace NormalForm

theorem unknownReports_eq_nil_iff {owner : String} {names : List String} :
    unknownReports levels owner names = [] ↔ levels.unknown names = [] :=
  List.map_eq_nil_iff

variable (n : NormalForm)

abbrev emptyTerminal : Symbol → Bool :=
  FirstSets.tokenNullable (FirstSets.emptyTokensOf n.lexicon)

theorem judges_emptyTerminal : n.numbering.Judges n.emptyTerminal where
  lexical i := by
    rw [emptyTerminal, FirstSets.tokenNullable, FirstSets.emptyTokensOf, List.getD_eq_getElem?_getD,
      List.getElem?_map, numbering, List.getElem?_map]
    cases n.lexicon[i]? <;> simp
  external _ := rfl

theorem emptyTerminal_resolveLevels :
    (n.resolveLevels levels).emptyTerminal = n.emptyTerminal := by
  have entries : FirstSets.emptyTokensOf (n.resolveLevels levels).lexicon
      = FirstSets.emptyTokensOf n.lexicon := by
    simp only [FirstSets.emptyTokensOf, resolveLevels, List.map_map]
    exact List.map_congr_left fun entry _ => Rule.nullable_resolveLevels entry.content
  rw [emptyTerminal, entries]

/-- An expression derives the empty text by the verdict of the first sets. -/
theorem nullable_iff_derivesEmpty (e : Expr) :
    e.nullable (FirstSets.ofNormalForm n).symbolNullable = true ↔ e.DerivesEmpty n.numbering :=
  Numbering.nullable_iff_derivesEmpty n.judges_emptyTerminal e

theorem derivesEmpty_resolveLevels (e : Expr) :
    (e.resolveLevels levels).DerivesEmpty (n.resolveLevels levels).numbering
      ↔ e.DerivesEmpty n.numbering := by
  have bodies : (n.resolveLevels levels).numbering.bodies
      = n.numbering.bodies.map (Expr.resolveLevels levels) := by
    simp only [numbering, NormalForm.bodies, resolveLevels, List.map_map]
    rfl
  have verdict : (n.resolveLevels levels).numbering.verdict n.emptyTerminal
      = n.numbering.verdict n.emptyTerminal := by
    rw [Numbering.verdict, Numbering.verdict, Numbering.emptyIds, Numbering.emptyIds, bodies,
      Expr.nullableIds_resolveLevels]
  have judges := (n.resolveLevels levels).judges_emptyTerminal
  rw [emptyTerminal_resolveLevels] at judges
  rw [← Numbering.nullable_iff_derivesEmpty judges, verdict, Expr.nullable_resolveLevels]
  exact Numbering.nullable_iff_derivesEmpty n.judges_emptyTerminal e

end NormalForm

end Productions
