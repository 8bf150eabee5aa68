import Productions.Proofs.Consumption
import Productions.Proofs.Lowering.Sources
import Productions.Proofs.Renumbering.NormalForm
import Productions.Proofs.Reordering.Lowering
import Productions.Proofs.Reordering.Resolution

/-! The normal form of a grammar whose rules stand in another order. It is reached for both orders
or for neither, and the two normal forms differ in the numbers of their symbols only. -/
namespace Productions

open NormalForm Inlining Lowering Symbols

namespace Naming

variable {n n' : Naming} {L L' : Lexicon}

theorem Entered.quietBody (entered : n.Entered L)
    (tokens : ∀ name, n.table.kind? name = some .token → (L.findNamed? name).isSome)
    {info : SymbolInfo} (placed : n.BodyPlaced L info) : n.QuietBody info := by
  unfold BodyPlaced at placed
  unfold QuietBody
  by_cases token : info.kind = .token
  · rw [if_pos token] at placed ⊢
    obtain ⟨id, found⟩ := Option.isSome_iff_exists.1 placed
    obtain ⟨entry, place, named, same⟩ := Lexicon.exists_of_findNamed? found
    exact same ▸ (entered.named entry (List.mem_of_getElem? place) named).2.2.2
  · rw [if_neg token] at placed ⊢
    exact fun leaf hl => entered.silent tokens (placed leaf hl)

theorem Reordered.quietBody (h : n.Reordered n') {info : SymbolInfo} {index : Nat}
    (quiet : n.QuietBody { info with index }) : n'.QuietBody info := by
  unfold QuietBody at quiet ⊢
  rwa [← h.namedReports_eq, ← h.bodyOf_eq, ← h.silent_eq]

theorem bodyIn_between {names names' : List String} (h : n.Reordered n') (counts : n.Counts names)
    (counts' : n'.Counts names') {info : SymbolInfo} {index : Nat} (placed : n.BodyPlaced L info)
    (placed' : n'.BodyPlaced L' { info with index }) : n'.bodyIn L' { info with index }
      = (n.bodyIn L info).renumber (Renumbering.between names L n'.vars L') := by
  unfold BodyPlaced at placed placed'
  unfold bodyIn
  by_cases token : info.kind = .token
  · rw [if_pos token] at placed placed' ⊢
    rw [if_pos token]
    obtain ⟨id, found⟩ := Option.isSome_iff_exists.1 placed
    obtain ⟨id', found'⟩ := Option.isSome_iff_exists.1 placed'
    rw [found, found']
    exact congrArg (Expr.symbol ∘ Symbol.lexical) (between_named names found found').symm
  · rw [if_neg token] at placed placed' ⊢
    rw [if_neg token]
    rw [← h.bodyOf_eq] at placed' ⊢
    exact lowered_between h counts counts' _ fun leaf hl => ⟨placed leaf hl, placed' leaf hl⟩

end Naming

namespace NormalForm

variable {t u : SymbolTable}

theorem mem_expandedInfos {start : String} {info : SymbolInfo} : info ∈ expandedInfos start t.infos
    ↔ info ∈ t.infos ∧ info.kind = .hidden ∧ info.name ≠ start := by
  simp [expandedInfos]

theorem mem_expandedInfos_reordered (h : t.Reordered u) {start : String} {info : SymbolInfo}
    (mem : info ∈ expandedInfos start t.infos) :
    ∃ index, { info with index } ∈ expandedInfos start u.infos := by
  obtain ⟨listed, hidden⟩ := mem_expandedInfos.1 mem
  obtain ⟨index, listed'⟩ := h.mem_infos listed
  exact ⟨index, mem_expandedInfos.2 ⟨listed', hidden⟩⟩

theorem counts_namingOf (g : Grammar) (keyed : t.Keyed) (start : String) :
    (namingOf g t start).Counts ((keptRules t start).map SymbolInfo.name) := by
  intro name id found
  obtain ⟨info, place, rfl⟩ := (get?_vars keyed name id).1 found
  rw [List.getElem?_map, place, Option.map_some]

end NormalForm

namespace Grammar.Reorders

variable {g g' : Grammar} {start : String} (h : g.Reorders g')

include h

theorem mem_keptRules {info : SymbolInfo} (mem : info ∈ keptRules g.table start) :
    ∃ index, { info with index } ∈ keptRules g'.table start :=
  mem_keptRules_reordered (resolve_reordered h) (keyed_resolve g) (keyed_resolve g') mem

theorem quiet_inlining (quiet : (extrasRun g g.table).2.reports = []) :
    (extrasRun g' g'.table).2.reports = [] :=
  quiet_extrasRun_reordered (resolve_reordered h) (keyed_resolve g) (keyed_resolve g') quiet

theorem isSome_vars {name : String} (known : ((g.naming start).vars.get? name).isSome = true) :
    ((g'.naming start).vars.get? name).isSome = true := by
  obtain ⟨id, found⟩ := Option.isSome_iff_exists.1 known
  obtain ⟨info, place, rfl⟩ := (get?_vars (keyed_resolve g) name id).1 found
  obtain ⟨index, mem⟩ := h.mem_keptRules (List.mem_of_getElem? place)
  obtain ⟨id', place'⟩ := List.getElem?_of_mem mem
  rw [(get?_vars (keyed_resolve g') info.name id').2 ⟨_, place', rfl⟩]
  rfl

/-- Names stand for the same in both orders. -/
theorem naming (normal : (ofGrammar g g.table start).2 = []) :
    (g.naming start).Reordered (g'.naming start) where
  kinds := (resolve_reordered h).kind?_eq
  bodies := get?_bodies_reordered (resolve_reordered h) (keyed_resolve g) (keyed_resolve g')
    (quiet_extrasRun normal) (h.quiet_inlining (quiet_extrasRun normal))
  externals := by
    show g.externals.filterMap _ = g'.externals.filterMap _
    rw [h.externals]
  vars _ := Bool.eq_iff_iff.2 ⟨h.isSome_vars, h.symm.isSome_vars⟩

theorem extras_eq (normal : (ofGrammar g g.table start).2 = []) :
    (extrasRun g g.table).1 = (extrasRun g' g'.table).1 :=
  extrasRun_reordered (resolve_reordered h) (keyed_resolve g) (keyed_resolve g')
    (quiet_extrasRun normal) (h.quiet_inlining (quiet_extrasRun normal)) h.extras.symm

omit h in
theorem isSome_findNamed? (normal : (ofGrammar g g.table start).2 = []) (name : String)
    (token : g.table.kind? name = some .token) :
    ((g.lexicon start).findNamed? name).isSome := by
  obtain ⟨info, get, kind⟩ := Option.map_eq_some_iff.1 token
  obtain rfl := (keyed_resolve g).name_eq get
  exact (partsIn_partsRun (keyed_resolve g) normal).tokens info
    (SymbolTable.mem_infos.2 ⟨_, get⟩) kind

/-- What is lowered without reports in one order causes none in the other one. -/
theorem silences (normal : (ofGrammar g g.table start).2 = []) :
    Silences g' (g'.naming start) (extrasRun g' g'.table).1 (keptRules g'.table start) start := by
  have tables := resolve_reordered h
  have keyed := keyed_resolve g
  have keyed' := keyed_resolve g'
  have same := h.naming normal
  have parts := partsIn_partsRun keyed normal
  have entered := entered_lexiconOf keyed normal
  have tokens := isSome_findNamed? normal
  have silent {leaf : Rule} (placed : (g.naming start).Placed (g.lexicon start) leaf) :
      (g'.naming start).Silent leaf := by
    rw [← same.silent_eq]
    exact entered.silent tokens placed
  refine ⟨fun info mem => ?_, fun extra mem => ?_, fun name mem => ?_, fun info mem kind => ?_,
    fun info mem leaf hl => ?_⟩
  · obtain ⟨index, mem'⟩ := h.symm.mem_keptRules mem
    exact same.quietBody (entered.quietBody tokens (parts.bodies _ mem'))
  · rw [← h.extras_eq normal] at mem
    obtain ⟨s, -, single, placed⟩ := exists_of_mem_forall₂ parts.extras mem
    exact ⟨Naming.single_of_between same (counts_namingOf g keyed start)
      (counts_namingOf g' keyed' start) single placed, fun leaf hl => silent (placed leaf hl)⟩
  · exact silent (parts.wordPlaced name (h.word ▸ mem))
  · have kind' : g.table.kind? info.name = some .token := by
      rw [tables.kind?_eq]
      exact kind?_of_get? (keyed'.get?_name mem) kind
    obtain ⟨id, found⟩ := Option.isSome_iff_exists.1 (tokens _ kind')
    obtain ⟨entry, place, named, own⟩ := Lexicon.exists_of_findNamed? found
    rw [← same.namedReports_eq, ← own]
    exact (entered.named entry (List.mem_of_getElem? place) named).2.2.2
  · obtain ⟨index, mem'⟩ := mem_expandedInfos_reordered tables.symm mem
    refine silent (parts.hidden _ mem' leaf ?_)
    rwa [same.bodyOf_eq]

/-- A normal form that is reached without reports is so in every order. -/
theorem quiet_normal (normal : (ofGrammar g g.table start).2 = []) :
    (ofGrammar g' g'.table start).2 = [] := by
  have keyed' := keyed_resolve g'
  have quiet' := h.quiet_inlining (quiet_extrasRun normal)
  rw [ofGrammar_eq, quiet', List.nil_append]
  exact lowerParts_silent (plain_namingOf keyed' quiet') (plain_extras keyed' quiet')
    (h.silences normal) (show (lowerParts g' (namingOf g' g'.table start) (inlinedRules g'.table)
      (extrasRun g' g'.table).1 (keptRules g'.table start) start).run Lowering.start
        = ((partsRun g' g'.table start).1, (partsRun g' g'.table start).2) from rfl) rfl

theorem clean (clean : Clean g start) : Clean g' start :=
  ⟨referenceReports_reordered h clean.names, h.quiet_normal clean.normal⟩

end Grammar.Reorders

namespace NormalForm

variable {g : Grammar} {start : String}

theorem placed_of_isSource (normal : (ofGrammar g g.table start).2 = []) {leaf : Rule}
    (source : IsSource g g.table start leaf) :
    (g.naming start).Placed (g.lexicon start) leaf := by
  have parts := partsIn_partsRun (keyed_resolve g) normal
  rcases source with ⟨info, mem, kind, hl⟩ | ⟨extra, mem, hl⟩ | ⟨info, mem, hl⟩
  · have placed := parts.bodies info mem
    rw [Naming.BodyPlaced, if_neg kind] at placed
    exact placed leaf hl
  · obtain ⟨s, -, -, placed⟩ := exists_of_mem_forall₂ parts.extras mem
    exact placed leaf hl
  · exact parts.hidden info mem leaf hl

theorem vars_normalForm (normal : (ofGrammar g g.table start).2 = []) :
    (g.normalForm start).vars = (keptRules g.table start).map
      ((g.naming start).variableIn (g.lexicon start) (inlinedRules g.table)) :=
  (partsIn_partsRun (keyed_resolve g) normal).vars

theorem names_normalForm (normal : (ofGrammar g g.table start).2 = []) :
    (g.normalForm start).vars.map Variable.name
      = (keptRules g.table start).map SymbolInfo.name := by
  rw [vars_normalForm normal, List.map_map]
  rfl

theorem inside_lowered (normal : (ofGrammar g g.table start).2 = []) (r : Rule) :
    (g.normalForm start).Inside ((g.naming start).lowered (g.lexicon start) r) := by
  intro i rule
  obtain ⟨leaf, hl, found⟩ := Naming.exists_leaf_of_mem_symbols r rule
  have numbered {name : String} (found : (g.naming start).vars.get? name = some i) :
      i < (g.normalForm start).vars.length := by
    obtain ⟨info, place, -⟩ := (get?_vars (keyed_resolve g) name i).1 found
    rw [vars_normalForm normal, List.length_map]
    exact (List.getElem?_eq_some_iff.1 place).1
  cases leaf with
  | terminal t =>
    rw [Naming.symbolIn] at found
    cases outside : (g.naming start).outside? t <;> simp [outside] at found
  | token content immediate =>
    rw [Naming.symbolIn] at found
    simp at found
  | symbol name =>
    rw [Naming.symbolIn, Naming.nameIn] at found
    cases own : (g.naming start).vars.get? name with
    | some j =>
      rw [own] at found
      cases found
      exact numbered own
    | none =>
      rw [own] at found
      dsimp only at found
      split at found <;> simp at found
  | _ => cases found

theorem inside_bodyIn (normal : (ofGrammar g g.table start).2 = []) (info : SymbolInfo) :
    (g.normalForm start).Inside ((g.naming start).bodyIn (g.lexicon start) info) := by
  unfold Naming.bodyIn
  split
  · intro i rule
    cases found : (g.lexicon start).findNamed? info.name <;>
      simp [found, Expr.symbols, Expr.blank, Expr.symbolsAll] at rule
  · exact inside_lowered normal _

end NormalForm

namespace Grammar

abbrev renumbering (g g' : Grammar) (start : String) : Renumbering :=
  .between ((keptRules g.table start).map SymbolInfo.name) (g.lexicon start)
    (g'.naming start).vars (g'.lexicon start)

namespace Reorders

variable {g g' : Grammar} {start : String} (h : g.Reorders g')

include h

section Normal

variable (normal : (ofGrammar g g.table start).2 = [])

include normal

theorem isSource {leaf : Rule} (source : IsSource g g.table start leaf) :
    IsSource g' g'.table start leaf := by
  have bodies := (h.naming normal).bodyOf_eq
  rcases source with ⟨info, mem, kind, hl⟩ | ⟨extra, mem, hl⟩ | ⟨info, mem, hl⟩
  · obtain ⟨index, mem'⟩ := h.mem_keptRules mem
    exact .inl ⟨_, mem', kind, bodies ▸ hl⟩
  · exact .inr (.inl ⟨extra, h.extras_eq normal ▸ mem, hl⟩)
  · obtain ⟨index, mem'⟩ := mem_expandedInfos_reordered (resolve_reordered h) mem
    exact .inr (.inr ⟨_, mem', bodies ▸ hl⟩)

theorem exists_variable {i : Nat} {v : Variable} (lookup : (g.normalForm start).vars[i]? = some v) :
    ∃ v', (g'.normalForm start).vars[(g.renumbering g' start).rule i]? = some v'
      ∧ v.Renumbered (g.renumbering g' start) v' := by
  have keyed := keyed_resolve g
  have keyed' := keyed_resolve g'
  have normal' := h.quiet_normal normal
  have counts := counts_namingOf g keyed start
  rw [vars_normalForm normal, List.getElem?_map, Option.map_eq_some_iff] at lookup
  obtain ⟨info, place, rfl⟩ := lookup
  have mem := List.mem_of_getElem? place
  have get := get?_of_mem_keptRules keyed mem
  obtain ⟨index, mem'⟩ := h.mem_keptRules mem
  obtain ⟨j, place'⟩ := List.getElem?_of_mem mem'
  have number : (g.renumbering g' start).rule i = j :=
    Naming.between_rule counts ((get?_vars keyed info.name i).2 ⟨info, place, rfl⟩)
      ((get?_vars keyed' info.name j).2 ⟨_, place', rfl⟩)
  obtain ⟨inlined, inlined', entry, entry', -, used⟩ :=
    inlined_reordered (resolve_reordered h) keyed keyed' (quiet_extrasRun normal)
      (quiet_extrasRun normal') get
  refine ⟨(g'.naming start).variableIn (g'.lexicon start) (inlinedRules g'.table)
    { info with index }, ?_, rfl, rfl, ?_, fun k => ?_⟩
  · rw [number, vars_normalForm normal', List.getElem?_map, place', Option.map_some]
  · exact Naming.bodyIn_between (h.naming normal) counts (counts_namingOf g' keyed' start)
      ((partsIn_partsRun keyed normal).bodies info mem)
      ((partsIn_partsRun keyed' normal').bodies _ mem')
  · simp only [Naming.variableIn, OrderedMap.getD, entry, entry', Option.getD_some,
      OrderedSet.mem_toList]
    exact (used k).symm

theorem exists_entry {entry : LexicalEntry} (mem : entry ∈ (g.lexicon start).entries) :
    ∃ entry' ∈ (g'.lexicon start).entries, entry'.content = entry.content := by
  have keyed := keyed_resolve g
  have normal' := h.quiet_normal normal
  have same := h.naming normal
  have entered := entered_lexiconOf keyed normal
  have entered' := entered_lexiconOf (keyed_resolve g') normal'
  cases named : entry.named with
  | true =>
    obtain ⟨token, content, -⟩ := entered.named entry mem named
    have token' : g'.table.kind? entry.name = some .token := by
      rw [← (resolve_reordered h).kind?_eq]
      exact token
    obtain ⟨id, found⟩ := Option.isSome_iff_exists.1 (isSome_findNamed? normal' _ token')
    obtain ⟨entry', place, named', own⟩ := Lexicon.exists_of_findNamed? found
    have mem' := List.mem_of_getElem? place
    refine ⟨entry', mem', ?_⟩
    rw [(entered'.named entry' mem' named').2.1, own, content, same.namedContent_eq]
  | false =>
    have sourced : (g.naming start).Sourced (IsSource g g.table start) (g.lexicon start) :=
      sourced_lexiconOf keyed (quiet_extrasRun normal)
    obtain ⟨leaf, source, sources⟩ := sourced entry mem named
    have placed := placed_of_isSource normal' (h.isSource normal source)
    have anonymous {content : Rule} {immediate : Bool}
        (found : ((g'.lexicon start).findAnonymous? content immediate).isSome)
        (own : entry.content = content) :
        ∃ entry' ∈ (g'.lexicon start).entries, entry'.content = entry.content := by
      obtain ⟨id, found⟩ := Option.isSome_iff_exists.1 found
      obtain ⟨entry', place, -, content', -⟩ := Lexicon.exists_of_findAnonymous? found
      exact ⟨entry', List.mem_of_getElem? place, content'.trans own.symm⟩
    cases leaf with
    | terminal t =>
      obtain ⟨inside, own, -⟩ := sources
      rw [Naming.Placed, Naming.symbolIn, ← same.outside?_eq, inside] at placed
      simp only [Option.map_none, Option.none_or, Option.isSome_map] at placed
      exact anonymous placed own
    | token content immediate =>
      obtain ⟨own, -⟩ := sources
      obtain ⟨placed, -⟩ := placed
      rw [Naming.symbolIn, Option.isSome_map, ← same.innerContent_eq] at placed
      exact anonymous placed own
    | _ => exact sources.elim

end Normal

variable (clean : Clean g start)

include clean

theorem expansion_eq {name : String} {body : Expr}
    (found : (g.normalForm start).expansions.get? name = some body) :
    (g'.normalForm start).expansions.get? name = some (body.renumber (g.renumbering g' start)) := by
  have keyed := keyed_resolve g
  have keyed' := keyed_resolve g'
  have clean' := h.clean clean
  have same := h.naming clean.normal
  obtain ⟨hidden, mem, rfl, rfl⟩ := (get?_expansions_iff clean).1 found
  obtain ⟨index, mem'⟩ := mem_expandedInfos_reordered (resolve_reordered h) mem
  refine (get?_expansions_iff clean').2 ⟨_, mem', rfl, ?_⟩
  have placed := (partsIn_partsRun keyed clean.normal).hidden hidden mem
  have placed' := (partsIn_partsRun keyed' clean'.normal).hidden _ mem'
  rw [← same.bodyOf_eq] at placed' ⊢
  exact (Naming.lowered_between same (counts_namingOf g keyed start)
    (counts_namingOf g' keyed' start) _ fun leaf hl => ⟨placed leaf hl, placed' leaf hl⟩).symm

/-- The normal form is found in that of the other order. -/
theorem embeds : Embeds (g.renumbering g' start) (g.normalForm start) (g'.normalForm start) where
  vars _ _ lookup := h.exists_variable clean.normal lookup
  expansions _ _ found := h.expansion_eq clean found
  entries _ mem := h.exists_entry clean.normal mem
  insideVars v mem := by
    rw [vars_normalForm clean.normal] at mem
    obtain ⟨info, -, rfl⟩ := List.mem_map.1 mem
    exact inside_bodyIn clean.normal info
  insideExpansions name body found := by
    obtain ⟨hidden, -, -, rfl⟩ := (get?_expansions_iff clean).1 found
    exact inside_lowered clean.normal _

/-- The normal forms of two orders are found in each other. -/
theorem renumbers : Renumbers (g.renumbering g' start) (g'.renumbering g start)
    (g.normalForm start) (g'.normalForm start) where
  there := h.embeds clean
  back := h.symm.embeds (h.clean clean)
  distinct := names_normalForm clean.normal ▸ nodup_keptRules (keyed_resolve g)
  distinct' := names_normalForm (h.clean clean).normal ▸ nodup_keptRules (keyed_resolve g')

end Reorders

end Grammar

end Productions
