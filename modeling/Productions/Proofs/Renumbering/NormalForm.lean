import Productions.Proofs.Ambiguity.Tables
import Productions.Proofs.Levels
import Productions.Proofs.Renumbering.Expr

/-! Normal forms that differ in the numbers of their symbols and in the order of their variables and
entries. What is found out about a variable is found out about the variable of the same name, and
the checks accept both normal forms or neither. -/
namespace Productions

open Relation

structure Variable.Renumbered (ρ : Renumbering) (v v' : Variable) : Prop where
  name : v'.name = v.name
  kind : v'.kind = v.kind
  body : v'.body = v.body.renumber ρ
  inlined : ∀ k, k ∈ v'.inlined ↔ k ∈ v.inlined

namespace NormalForm

def Inside (m : NormalForm) (e : Expr) : Prop := ∀ i, .rule i ∈ e.symbols → i < m.vars.length

/-- Everything in one normal form is found in another one under new numbers. -/
structure Embeds (ρ : Renumbering) (m m' : NormalForm) : Prop where
  vars : ∀ i v, m.vars[i]? = some v → ∃ v', m'.vars[ρ.rule i]? = some v' ∧ v.Renumbered ρ v'
  expansions : ∀ name body, m.expansions.get? name = some body →
    m'.expansions.get? name = some (body.renumber ρ)
  entries : ∀ entry ∈ m.lexicon, ∃ entry' ∈ m'.lexicon, entry'.content = entry.content
  insideVars : ∀ v ∈ m.vars, m.Inside v.body
  insideExpansions : ∀ name body, m.expansions.get? name = some body → m.Inside body

structure Renumbers (ρ ρ' : Renumbering) (m m' : NormalForm) : Prop where
  there : Embeds ρ m m'
  back : Embeds ρ' m' m
  distinct : (m.vars.map Variable.name).Nodup
  distinct' : (m'.vars.map Variable.name).Nodup

variable {ρ ρ' : Renumbering} {m m' : NormalForm}

namespace Embeds

variable (h : Embeds ρ m m')

include h

theorem bodies {i : Nat} {body : Expr} (lookup : m.numbering.bodies[i]? = some body) :
    m'.numbering.bodies[ρ.rule i]? = some (body.renumber ρ) := by
  simp only [numbering, NormalForm.bodies, List.getElem?_map, Option.map_eq_some_iff] at lookup ⊢
  obtain ⟨v, found, rfl⟩ := lookup
  obtain ⟨v', found', same⟩ := h.vars i v found
  exact ⟨v', found', same.body⟩

theorem mem_nullableIds : ∀ i ∈ Expr.nullableIds (fun _ => false) m.numbering.bodies,
    ρ.rule i ∈ Expr.nullableIds (fun _ => false) m'.numbering.bodies := by
  refine OrderedSet.leastClosed_induction _
    (p := fun i => ρ.rule i ∈ Expr.nullableIds (fun _ => false) m'.numbering.bodies) ?_
  rintro found old ⟨i, body⟩ mem holds
  have lookup : m.numbering.bodies[i]? = some body := Numbering.mem_bodies_iff.1 mem
  refine OrderedSet.mem_leastClosed_of_holds _ (ρ.rule i, body.renumber ρ)
    (Numbering.mem_bodies_iff.2 (h.bodies lookup)) ?_
  rw [Expr.nullable_renumber body fun _ _ => rfl]
  refine Expr.nullable_mono (fun s hs => ?_) body holds
  cases s with
  | rule j => exact OrderedSet.contains_iff.2 (old j (OrderedSet.contains_iff.1 hs))
  | lexical | external => exact hs

theorem chooses {i j : Nat} (path : m.numbering.Chooses i j) :
    m'.numbering.Chooses (ρ.rule i) (ρ.rule j) := by
  induction path with
  | refl => exact .refl
  | tail _ step ih =>
    obtain ⟨body, lookup, offers⟩ := step
    exact ih.tail ⟨_, h.bodies lookup, offers.renumber⟩

end Embeds

namespace Renumbers

variable (h : Renumbers ρ ρ' m m')

include h

theorem symm : Renumbers ρ' ρ m' m := ⟨h.back, h.there, h.distinct', h.distinct⟩

/-- Names are distinct, so the new numbers can be undone. -/
theorem undone {i : Nat} (inside : i < m.vars.length) : ρ'.rule (ρ.rule i) = i := by
  have found : m.vars[i]? = some m.vars[i] := List.getElem?_eq_getElem inside
  obtain ⟨v', found', same⟩ := h.there.vars i _ found
  obtain ⟨v'', found'', same'⟩ := h.back.vars _ _ found'
  exact place_eq_of_key_eq h.distinct found'' found (same'.name.trans same.name)

theorem omissible_eq {s : Symbol} (inside : ∀ i, s = .rule i → i < m.vars.length) :
    m'.numbering.omissible (ρ.symbol s) = m.numbering.omissible s := by
  cases s with
  | rule i =>
    refine Bool.eq_iff_iff.2 ⟨fun hs => ?_, fun hs => ?_⟩
    · have back := h.back.mem_nullableIds _ (OrderedSet.contains_iff.1 hs)
      rw [h.undone (inside i rfl)] at back
      exact OrderedSet.contains_iff.2 back
    · exact OrderedSet.contains_iff.2 (h.there.mem_nullableIds i (OrderedSet.contains_iff.1 hs))
  | lexical | external => rfl

theorem chooses_iff {i j : Nat} (hi : i < m.vars.length) (hj : j < m.vars.length) :
    m'.numbering.Chooses (ρ.rule i) (ρ.rule j) ↔ m.numbering.Chooses i j := by
  refine ⟨fun path => ?_, h.there.chooses⟩
  have back := h.back.chooses path
  rwa [h.undone hi, h.undone hj] at back

theorem targets_eq {i : Nat} {v : Variable} (lookup : m.vars[i]? = some v) {s : Symbol}
    (inside : ∀ i, s = .rule i → i < m.vars.length) :
    Disambiguation.targets m' (ρ.rule i) (ρ.symbol s) = Disambiguation.targets m i s := by
  obtain ⟨v', lookup', -⟩ := h.there.vars i v lookup
  cases s with
  | rule u =>
    rw [Bool.eq_iff_iff, Disambiguation.targets_iff lookup, Disambiguation.targets_iff lookup']
    have chooses := h.chooses_iff (inside u rfl) (List.getElem?_eq_some_iff.1 lookup).1
    constructor
    · rintro ⟨_, same, path⟩
      cases same
      exact ⟨u, rfl, chooses.1 path⟩
    · rintro ⟨_, same, path⟩
      cases same
      exact ⟨_, rfl, chooses.2 path⟩
  | lexical | external => rfl

theorem judged_eq {i : Nat} {v v' : Variable} (lookup : m.vars[i]? = some v)
    (same : v.Renumbered ρ v') :
    Disambiguation.judged m' (ρ.rule i) v' = Disambiguation.judged m i v := by
  rw [Disambiguation.judged, Disambiguation.judged, same.body, Expr.alternatives_renumber,
    List.map_map]
  refine List.map_congr_left fun e mem => ?_
  have inside (s : Symbol) (hs : s ∈ e.symbols) (j : Nat) (rule : s = .rule j) :
      j < m.vars.length :=
    h.there.insideVars v (List.mem_of_getElem? lookup) j
      (rule ▸ Expr.symbols_of_mem_alternatives mem s hs)
  have omissible : ∀ s ∈ e.symbols,
      m'.numbering.omissible (ρ.symbol s) = m.numbering.omissible s :=
    fun s hs => h.omissible_eq (inside s hs)
  have targets : ∀ s ∈ e.symbols, Disambiguation.targets m' (ρ.rule i) (ρ.symbol s)
      = Disambiguation.targets m i s := fun s hs => h.targets_eq lookup (inside s hs)
  rw [Function.comp, Disambiguation.alternative, Disambiguation.alternative,
    Annotation.of_renumber, Expr.symbols_renumber, List.any_map,
    Expr.startsWith_renumber e targets omissible, Expr.endsWith_renumber e targets omissible]
  congr 1
  rw [Bool.eq_iff_iff, List.any_eq_true, List.any_eq_true]
  exact exists_congr fun s => and_congr_right fun hs => by rw [Function.comp, targets s hs]

/-- Each table is found again under the new number of its variable. -/
theorem mem_tables {d : Disambiguation} (mem : d ∈ Disambiguation.tables m) :
    { d with id := ρ.rule d.id } ∈ Disambiguation.tables m' := by
  obtain ⟨i, v, lookup, wanted, rfl⟩ := Disambiguation.mem_tables.1 mem
  obtain ⟨v', lookup', same⟩ := h.there.vars i v lookup
  refine Disambiguation.mem_tables.2 ⟨ρ.rule i, v', lookup', ?_, ?_⟩
  · rwa [h.judged_eq lookup same]
  · simp only [Disambiguation.tableOf, h.judged_eq lookup same, same.name]

end Renumbers

theorem Embeds.unknownLevelReports_eq_nil (h : Embeds ρ m m') {levels : Levels}
    (none : m'.unknownLevelReports levels = []) : m.unknownLevelReports levels = [] := by
  simp only [unknownLevelReports, List.append_eq_nil_iff, List.flatMap_eq_nil_iff,
    unknownReports_eq_nil_iff] at none ⊢
  obtain ⟨⟨vars, expansions⟩, entries⟩ := none
  refine ⟨⟨fun v mem => ?_, fun e mem => ?_⟩, fun entry mem => ?_⟩
  · obtain ⟨i, lookup⟩ := List.getElem?_of_mem mem
    obtain ⟨v', lookup', same⟩ := h.vars i v lookup
    rw [← vars v' (List.mem_of_getElem? lookup'), same.body, Expr.levelNames_renumber]
  · have found := h.expansions e.1 e.2 (OrderedMap.get?_eq_some_iff.2 mem)
    rw [← expansions _ (OrderedMap.get?_eq_some_iff.1 found), Expr.levelNames_renumber]
  · obtain ⟨entry', mem', same⟩ := h.entries entry mem
    rw [← entries entry' mem', same]

theorem Embeds.resolveLevels (h : Embeds ρ m m') (levels : Levels) :
    Embeds ρ (m.resolveLevels levels) (m'.resolveLevels levels) where
  vars i v lookup := by
    simp only [NormalForm.resolveLevels, List.getElem?_map, Option.map_eq_some_iff] at lookup ⊢
    obtain ⟨first, found, rfl⟩ := lookup
    obtain ⟨first', found', same⟩ := h.vars i first found
    refine ⟨_, ⟨first', found', rfl⟩, same.name, same.kind, ?_, same.inlined⟩
    simp only [same.body, Expr.resolveLevels_renumber]
  expansions name body found := by
    simp only [NormalForm.resolveLevels, OrderedMap.get?_mapValues, Option.map_eq_some_iff]
      at found ⊢
    obtain ⟨first, found, rfl⟩ := found
    exact ⟨_, h.expansions name first found, Expr.resolveLevels_renumber levels first⟩
  entries entry mem := by
    obtain ⟨first, listed, rfl⟩ := List.mem_map.1 mem
    obtain ⟨first', mem', same⟩ := h.entries first listed
    exact ⟨_, List.mem_map_of_mem mem', congrArg (Rule.resolveLevels levels) same⟩
  insideVars v mem i rule := by
    obtain ⟨first, listed, rfl⟩ := List.mem_map.1 mem
    rw [Expr.symbols_resolveLevels] at rule
    simpa [NormalForm.resolveLevels] using h.insideVars first listed i rule
  insideExpansions name body found i rule := by
    simp only [NormalForm.resolveLevels, OrderedMap.get?_mapValues, Option.map_eq_some_iff]
      at found
    obtain ⟨first, found, rfl⟩ := found
    rw [Expr.symbols_resolveLevels] at rule
    simpa [NormalForm.resolveLevels] using h.insideExpansions name first found i rule

theorem Renumbers.resolveLevels (h : Renumbers ρ ρ' m m') (levels : Levels) :
    Renumbers ρ ρ' (m.resolveLevels levels) (m'.resolveLevels levels) where
  there := h.there.resolveLevels levels
  back := h.back.resolveLevels levels
  distinct := by simpa [NormalForm.resolveLevels, Function.comp_def] using h.distinct
  distinct' := by simpa [NormalForm.resolveLevels, Function.comp_def] using h.distinct'

end NormalForm

namespace Validation

theorem tokenReports_eq_nil_of_content {entry entry' : LexicalEntry}
    (same : entry.content = entry'.content) (none : tokenReports entry' = []) :
    tokenReports entry = [] := by
  obtain ⟨-, solid⟩ := sound_of_tokenReports none
  have faultless : entry.content.terminals.filterMap (patternReport? entry.name) = [] := by
    obtain ⟨readable, -⟩ := sound_of_tokenReports none
    rw [List.filterMap_eq_nil_iff]
    intro t mem
    cases t with
    | literal => rfl
    | pattern value flags =>
      exact Option.map_eq_none_iff.2 (readable value flags (same ▸ mem))
  simp only [tokenReports, faultless]
  rw [same, solid]
  rfl

/-- Nothing is reported on repetitions that consume something. -/
theorem repeatReports_eq_nil {n : NormalForm} {f : FirstSets}
    (vars : ∀ v ∈ n.vars, hasEmptyRepeat f.symbolNullable v.body = false)
    (expansions : ∀ name body, n.expansions.get? name = some body →
      hasEmptyRepeat f.symbolNullable body = true → ∃ v ∈ n.vars, name ∈ v.inlined)
    (entries : ∀ entry ∈ n.lexicon, hasEmptyTokenRepeat entry.content = false) :
    repeatReports n f = [] := by
  simp only [repeatReports, List.append_eq_nil_iff, List.map_eq_nil_iff, List.filter_eq_nil_iff,
    Bool.not_eq_true]
  refine ⟨⟨vars, fun name _ => ?_⟩, entries⟩
  by_contra faulty
  simp only [Bool.not_eq_false, Bool.and_eq_true, Bool.not_eq_true', Option.any_eq_true] at faulty
  obtain ⟨unused, body, found, empty⟩ := faulty
  have used := OrderedSet.contains_iff.2
    (OrderedSet.mem_ofList.2 (List.mem_flatMap.2 (expansions name body found empty)))
  rw [unused] at used
  cases used

end Validation

namespace NormalForm

open Validation

variable {ρ ρ' : Renumbering} {m m' : NormalForm}

theorem symbolNullable_of_sound (sound : ∀ entry ∈ m.lexicon, tokenReports entry = []) :
    (FirstSets.ofNormalForm m).symbolNullable = m.numbering.omissible := by
  have solid : m.emptyTerminal = fun _ => false := by
    funext s
    cases s with
    | lexical i =>
      rw [emptyTerminal, FirstSets.tokenNullable, FirstSets.emptyTokensOf,
        List.getD_eq_getElem?_getD, List.getElem?_map]
      cases found : m.lexicon[i]? with
      | none => rfl
      | some entry => exact (sound_of_tokenReports (sound entry (List.mem_of_getElem? found))).2
    | rule | external => rfl
  have verdict : (FirstSets.ofNormalForm m).symbolNullable
      = m.numbering.verdict m.emptyTerminal := rfl
  rw [verdict, solid]

namespace Renumbers

variable (h : Renumbers ρ ρ' m m')

include h

theorem tokens_sound (sound : ∀ entry ∈ m.lexicon, tokenReports entry = []) :
    ∀ entry ∈ m'.lexicon, tokenReports entry = [] := by
  intro entry mem
  obtain ⟨entry', mem', same⟩ := h.back.entries entry mem
  exact tokenReports_eq_nil_of_content same.symm (sound entry' mem')

theorem hasEmptyRepeat_eq {e : Expr} (inside : m.Inside e) :
    hasEmptyRepeat m'.numbering.omissible (e.renumber ρ)
      = hasEmptyRepeat m.numbering.omissible e :=
  Expr.hasEmptyRepeat_renumber e fun _ hs => h.omissible_eq fun i rule => inside i (rule ▸ hs)

theorem repeats_sound (sound : ∀ entry ∈ m.lexicon, tokenReports entry = [])
    (none : repeatReports m (FirstSets.ofNormalForm m) = []) :
    repeatReports m' (FirstSets.ofNormalForm m') = [] := by
  obtain ⟨vars, expansions, entries⟩ := consuming_of_repeatReports none
  rw [symbolNullable_of_sound sound] at vars expansions
  refine repeatReports_eq_nil (fun v mem => ?_) (fun name body found empty => ?_)
    fun entry mem => ?_
  · obtain ⟨i, lookup⟩ := List.getElem?_of_mem mem
    obtain ⟨v', lookup', same⟩ := h.back.vars i v lookup
    rw [symbolNullable_of_sound (h.tokens_sound sound),
      ← h.symm.hasEmptyRepeat_eq (h.back.insideVars v mem), ← same.body]
    exact vars v' (List.mem_of_getElem? lookup')
  · rw [symbolNullable_of_sound (h.tokens_sound sound),
      ← h.symm.hasEmptyRepeat_eq (h.back.insideExpansions name body found)] at empty
    obtain ⟨v, mem, used⟩ := expansions name _ (h.back.expansions name body found) empty
    obtain ⟨i, lookup⟩ := List.getElem?_of_mem mem
    obtain ⟨v', lookup', same⟩ := h.there.vars i v lookup
    exact ⟨v', List.mem_of_getElem? lookup', (same.inlined name).2 used⟩
  · obtain ⟨entry', mem', same⟩ := h.back.entries entry mem
    rw [← same]
    exact entries entry' mem'

omit h in
theorem covers_eq {v v' : Variable} (same : v.Renumbered ρ v') (conflicts : Conflicts) :
    conflicts.covers v' = conflicts.covers v := by
  rw [Conflicts.covers, Conflicts.covers, same.name]
  congr 1
  rw [Bool.eq_iff_iff, List.any_eq_true, List.any_eq_true]
  exact exists_congr fun k => and_congr_left' (same.inlined k)

theorem ambiguities_sound {conflicts : Conflicts}
    (none : ∀ d ∈ Disambiguation.tables m, ambiguityReport? m conflicts d = none) :
    ∀ d ∈ Disambiguation.tables m', ambiguityReport? m' conflicts d = Option.none := by
  intro d mem
  rw [ambiguityReport?_eq_none_iff]
  intro unresolved v lookup
  obtain ⟨v', lookup', same⟩ := h.back.vars d.id v lookup
  have covered :=
    ambiguityReport?_eq_none_iff.1 (none _ (h.symm.mem_tables mem)) unresolved v' lookup'
  rwa [covers_eq same] at covered

end Renumbers

end NormalForm

end Productions
