import Productions.Proofs.Lowering.Sources
import Productions.Proofs.Recompilation.Declared
import Productions.Proofs.Recompilation.RoundTrip

/-! Compiling back only works under the conditions for it. What a written grammar is compiled to has
canonical bodies and entries, no two entries alike, and no entry that no leaf of a body or of an
extra needs; if that is the compiled grammar again, all of this holds of it. -/
namespace Productions

open NormalForm

namespace Rule

variable {leaf : Rule}

theorem mem_leaves_makeSeq {rules : List Rule} :
    leaf ∈ (makeSeq rules).leaves ↔ ∃ r ∈ rules, leaf ∈ r.leaves := by
  have flat : (∃ part ∈ rules.flatMap seqParts, leaf ∈ part.leaves)
      ↔ ∃ r ∈ rules, leaf ∈ r.leaves :=
    exists_mem_parts_iff fun r => by
      cases r with
      | seq members => exact mem_leavesAll
      | _ => simp [seqParts]
  rw [← flat]
  unfold makeSeq
  split
  · rename_i r h
    simp [h]
  · exact mem_leavesAll

theorem mem_leaves_makeChoice {rules : List Rule} :
    leaf ∈ (makeChoice rules).leaves ↔ ∃ r ∈ rules, leaf ∈ r.leaves := by
  have flat : (∃ part ∈ (OrderedSet.ofList (rules.flatMap choiceParts)).toList,
      leaf ∈ part.leaves) ↔ ∃ r ∈ rules, leaf ∈ r.leaves :=
    exists_part_iff fun r => by
      cases r with
      | choice members => exact mem_leavesAll
      | _ => simp [choiceParts]
  rw [← flat]
  unfold makeChoice
  split
  · rename_i r h
    simp [h]
  · exact mem_leavesAll

theorem isLeaf_makeToken (immediate : Bool) (r : Rule) : (makeToken immediate r).IsLeaf := by
  cases r <;> trivial

/-- Every leaf of a canonical form is the canonical form of a leaf. -/
theorem exists_leaf_of_canonicalize {r : Rule} (h : leaf ∈ r.canonicalize.leaves) :
    ∃ l ∈ r.leaves, leaf = l.canonicalize := by
  have all (rules : List Rule) (h : ∃ r ∈ canonicalizeAll rules, leaf ∈ r.leaves)
      (ih : ∀ r ∈ rules, leaf ∈ r.canonicalize.leaves → ∃ l ∈ r.leaves, leaf = l.canonicalize) :
      ∃ l ∈ leavesAll rules, leaf = l.canonicalize := by
    rw [canonicalizeAll_eq_map] at h
    obtain ⟨_, mem, hl⟩ := h
    obtain ⟨r, hr, rfl⟩ := List.mem_map.1 mem
    obtain ⟨l, hl, same⟩ := ih r hr hl
    exact ⟨l, mem_leavesAll.2 ⟨r, hr, hl⟩, same⟩
  induction r with
  | terminal | symbol => exact ⟨_, List.mem_singleton_self _, List.mem_singleton.1 h⟩
  | token content immediate =>
    rw [canonicalize, (isLeaf_makeToken _ _).leaves_eq] at h
    exact ⟨_, List.mem_singleton_self _, List.mem_singleton.1 h⟩
  | seq members ih =>
    rw [canonicalize, mem_leaves_makeSeq] at h
    exact all members h ih
  | choice members ih =>
    rw [canonicalize, mem_leaves_makeChoice] at h
    exact all members h ih
  | optional content ih =>
    rw [canonicalize, mem_leaves_makeChoice] at h
    obtain ⟨r, hr, hl⟩ := h
    rcases List.mem_cons.1 hr with rfl | hr
    · exact ih hl
    · rw [List.mem_singleton.1 hr] at hl
      cases hl
  | repeated content repetition ih =>
    cases repetition with
    | zeroOrMore => exact ih h
    | oneOrMore =>
      rw [canonicalize, makeRepeated, mem_leaves_makeSeq] at h
      obtain ⟨r, hr, hl⟩ := h
      simp only [List.mem_cons, List.not_mem_nil, or_false] at hr
      rcases hr with rfl | rfl
      · exact ih hl
      · exact ih hl
  | prec _ _ _ ih | aliased _ _ _ ih | field _ _ ih => exact ih h

end Rule

namespace Naming

variable {n : Naming} {L : Lexicon} {leaf : Rule} {s : Symbol}

mutual

theorem mem_symbols_of_leaf (found : n.symbolIn L leaf = some s) : (r : Rule) →
    leaf ∈ r.leaves → s ∈ (n.lowered L r).symbols
  | .terminal t, h | .symbol name, h | .token content immediate, h => by
    rw [lowered, ← List.mem_singleton.1 h, found]
    exact List.mem_singleton_self s
  | .seq members, h => by
    rw [lowered, Expr.symbols_makeSeq]
    exact mem_symbolsAll_of_leaf found members h
  | .choice members, h => by
    rw [lowered, Expr.mem_symbols_makeChoice]
    exact mem_symbolsAll_of_leaf found members h
  | .repeated content _, h | .optional content, h | .prec _ _ content, h | .aliased content _ _, h
  | .field _ content, h => mem_symbols_of_leaf found content h

theorem mem_symbolsAll_of_leaf (found : n.symbolIn L leaf = some s) : (rules : List Rule) →
    leaf ∈ Rule.leavesAll rules → s ∈ Expr.symbolsAll (n.loweredAll L rules)
  | [], h => absurd h (by simp [Rule.leavesAll])
  | r :: rs, h => by
    rw [loweredAll, Expr.symbolsAll, List.mem_append]
    rw [Rule.leavesAll, List.mem_append] at h
    exact h.imp (mem_symbols_of_leaf found r) (mem_symbolsAll_of_leaf found rs)

end

/-- The entry that a leaf needs is the one that it stands for. -/
theorem symbolIn_of_sources (distinct : Lexicon.Distinct L.entries) {id : Nat}
    {entry : LexicalEntry} (place : L.entries[id]? = some entry) (unnamed : entry.named = false)
    (sources : n.Sources leaf entry) : n.symbolIn L leaf = some (.lexical id) := by
  have found := Lexicon.findAnonymous?_of_distinct distinct place unnamed
  cases leaf with
  | terminal t =>
    obtain ⟨inside, content, immediate⟩ := sources
    rw [content, immediate] at found
    rw [symbolIn, inside, found]
    rfl
  | token content immediate =>
    obtain ⟨same, flag⟩ := sources
    rw [same, flag] at found
    rw [symbolIn, found]
    rfl
  | _ => exact sources.elim

end Naming

namespace Lexicon

variable {L : Lexicon} {content : Rule} {immediate : Bool}

theorem distinct_internAnonymous (h : Distinct L.entries) (content : Rule) (immediate : Bool)
    (owner : String) : Distinct (L.internAnonymous content immediate owner).2.entries := by
  rcases internAnonymous_cases L content immediate owner
    with ⟨id, -, same⟩ | ⟨new, -, name, added⟩
  · rw [same]
    exact h
  · rw [added]
    refine List.pairwise_append.2 ⟨h, List.pairwise_singleton _ _, ?_⟩
    rintro e he f hf ⟨unnamed, -, same, flag⟩
    rw [List.mem_singleton.1 hf] at same flag
    exact findAnonymous?_eq_none_iff.1 new e he unnamed flag same

end Lexicon

namespace Lowering

variable {n : Naming} {s s' : Lowering}

theorem Step.distinct (h : Step n s s') (old : Lexicon.Distinct s.lexicon.entries) :
    Lexicon.Distinct s'.lexicon.entries := by
  cases h with
  | terminal | token => exact Lexicon.distinct_internAnonymous old _ _ _
  | named name kind new =>
    rw [Lexicon.internNamed_of_new new]
    refine List.pairwise_append.2 ⟨old, List.pairwise_singleton _ _, ?_⟩
    rintro e - f hf ⟨-, unnamed, -⟩
    rw [List.mem_singleton.1 hf] at unnamed
    cases unnamed
  | report => exact old

theorem Steps.distinct (h : Steps n s s') (old : Lexicon.Distinct s.lexicon.entries) :
    Lexicon.Distinct s'.lexicon.entries := by
  induction h with
  | refl => exact old
  | tail _ step ih => exact step.distinct ih

end Lowering

namespace Grammar.Compiles

variable {g : Grammar} {settings : Settings} {start : String} {c : CompiledGrammar}

theorem distinct_entries (h : g.Compiles settings start c) :
    Lexicon.Distinct (g.lexicon start).entries :=
  (@steps_partsRun g g.table start (Symbols.keyed_resolve g)
    (quiet_extrasRun h.clean.normal)).1.distinct List.Pairwise.nil

theorem canonical_entries (h : g.Compiles settings start c) :
    ∀ entry ∈ (g.lexicon start).entries, entry.content.Canonical := by
  intro entry mem
  cases named : entry.named with
  | true =>
    rw [(h.entered.named entry mem named).2.1]
    exact Rule.canonical_canonicalize _
  | false =>
    rcases h.entered.anonymous entry mem named with ⟨t, -, same, -⟩ | ⟨content, -, same, -⟩
    · rw [same]
      exact .terminal t
    · rw [same]
      exact Rule.canonical_canonicalize _

theorem canonical_bodyIn (g : Grammar) (start : String) (info : SymbolInfo) :
    ((g.naming start).bodyIn (g.lexicon start) info).Canonical := by
  unfold Naming.bodyIn
  split
  · cases (g.lexicon start).findNamed? info.name with
    | none => exact .seq (by simp) (by simp) (by simp)
    | some id => exact .symbol _
  · exact Naming.canonical_lowered _

/-- Without orderings, no precedence has a name. -/
theorem levelNames_eq_nil (h : g.Compiles .default start c) (unordered : g.precedences = []) :
    (∀ v ∈ (g.normalForm start).vars, v.body.levelNames = [])
      ∧ ∀ entry ∈ (g.lexicon start).entries, entry.content.levelNames = [] := by
  have none : g.levels .default = ∅ := by
    rw [levels, unordered]
    rfl
  have unknown {owner : String} {names : List String}
      (quiet : unknownReports ∅ owner names = []) : names = [] := by
    refine List.eq_nil_iff_forall_not_mem.2 fun name mem => ?_
    have absent : name ∉ Levels.unknown ∅ names := by
      rw [List.map_eq_nil_iff.1 quiet]
      exact List.not_mem_nil
    refine absent ?_
    rw [Levels.unknown, OrderedSet.mem_toList, OrderedSet.mem_ofList]
    exact List.mem_filter.2 ⟨mem, rfl⟩
  have named := h.named
  rw [none, unknownLevelReports] at named
  simp only [List.append_eq_nil_iff, List.flatMap_eq_nil_iff] at named
  exact ⟨fun v mem => unknown (named.1.1 v mem), fun entry mem => unknown (named.2 entry mem)⟩

theorem lexicon_eq_entries (h : g.Compiles .default start c) (unordered : g.precedences = []) :
    c.lexicon = (g.lexicon start).entries := by
  have unnamed := (h.levelNames_eq_nil unordered).2
  rw [h.lexicon_eq]
  refine (List.map_congr_left fun entry mem => ?_).trans (List.map_id _)
  rw [Lexicon.settleEntry, Rule.resolveLevels_eq_self (unnamed entry mem)]
  rfl

theorem shapes_eq (h : g.Compiles .default start c) (unordered : g.precedences = []) :
    c.vars.map Variable.shape = (keptRules g.table start).map fun info =>
      (info.name, info.kind, (g.naming start).bodyIn (g.lexicon start) info) := by
  rw [h.vars_eq, List.map_map]
  refine List.map_congr_left fun info kept => ?_
  have vars : (g.normalForm start).vars = _ := h.partsIn.vars
  have unnamed : ((g.naming start).bodyIn (g.lexicon start) info).levelNames = [] :=
    (h.levelNames_eq_nil unordered).1 _ (vars ▸ List.mem_map_of_mem kept)
  simp only [Function.comp, Variable.shape, Expr.resolveLevels_eq_self unnamed]
  rfl

end Grammar.Compiles

theorem Inlining.Reaches.exists_hidden {t : SymbolTable} {r : Rule} {k : String}
    (reached : Reaches t r k) : ∃ j ∈ r.occurrences, t.isInlined j = true := by
  cases reached with
  | here mem hidden | through mem hidden => exact ⟨_, mem, hidden⟩

namespace CompiledGrammar

section Written

variable {c : CompiledGrammar} (arranged : c.Arranged)
  (kinds : ∀ v ∈ c.vars, c.toGrammar.table.kind? v.name = some v.kind)
  (contents : ∀ entry ∈ c.lexicon, entry.content.Canonical)

include arranged

/-- What is written in a token is no terminal, unless nothing may come before it. -/
theorem inner_symbolRule (contents : ∀ entry ∈ c.lexicon, entry.content.Canonical) {s : Symbol}
    {content : Rule} (stands : c.Stands s) (written : c.symbolRule s = .token content false) :
    content.Closed ∧ content.Canonical ∧ ∀ t, content ≠ .terminal t := by
  cases stands with
  | rule found => cases written
  | named found named =>
    rw [symbolRule_named found named] at written
    cases written
  | @anonymous id entry found unnamed =>
    have mem := List.mem_of_getElem? found
    rw [symbolRule_anonymous found unnamed] at written
    unfold LexicalEntry.toRule at written
    split at written
    · split at written
      · cases written
      · cases written
    · rename_i other
      obtain ⟨rfl, -⟩ := Rule.token.inj written
      exact ⟨arranged.closed _ mem, contents _ mem, other⟩
  | outside found =>
    rw [symbolRule_outside found] at written
    split at written
    · cases written
    · cases written

include kinds

/-- The rule of a variable that wraps no entry is written for a body of the compiled grammar. -/
theorem exists_body_of_kept {info : SymbolInfo} (mem : info ∈ c.toGrammar.table.infos)
    (kind : info.kind ≠ .token) : ∃ v ∈ c.vars, v.kind ≠ .token
      ∧ info.body = c.exprRule v.body := by
  obtain ⟨d, written, name, body⟩ := exists_rule arranged mem
  have get := (Symbols.keyed_resolve c.toGrammar).get?_name mem
  have known : c.toGrammar.table.kind? d.name = some info.kind := by
    rw [← name, SymbolTable.kind?, get, Option.map_some]
  rcases List.mem_append.1 written with written | written
  · obtain ⟨v, listed, rfl⟩ := List.mem_map.1 written
    have same : v.kind = info.kind := Option.some.inj ((kinds v listed).symm.trans known)
    rw [← same] at kind
    exact ⟨v, listed, kind, body.trans (body_variableRule kind)⟩
  · obtain ⟨id, entry, found, named, -, rfl⟩ := mem_tokenRules.1 written
    have token := arranged.kind?_of_entry kinds found named
    exact absurd (Option.some.inj (known.symm.trans token)) kind

variable (quiet : (extrasRun c.toGrammar c.toGrammar.table).2.reports = [])

include contents quiet

/-- Every leaf that needs an entry is written for a symbol. -/
theorem exists_symbol_of_isSource {leaf : Rule}
    (source : IsSource c.toGrammar c.toGrammar.table c.start leaf) :
    ∃ s, c.Stands s ∧ leaf = c.symbolRule s := by
  have keyed := Symbols.keyed_resolve c.toGrammar
  rcases source with ⟨info, kept, kind, hl⟩ | ⟨extra, mem, hl⟩ | ⟨info, hidden, -⟩
  · have get := get?_of_mem_keptRules keyed kept
    obtain ⟨v, known, wraps, body⟩ := exists_body_of_kept arranged kinds
      (SymbolTable.mem_infos.2 ⟨_, get⟩) kind
    rw [bodyOf_eq_canonicalize arranged kinds quiet get, body] at hl
    obtain ⟨l, before, rfl⟩ := Rule.exists_leaf_of_canonicalize hl
    rw [leaves_body arranged known wraps] at before
    obtain ⟨s, hs, rfl⟩ := List.mem_map.1 before
    have stands := arranged.bodies v known wraps s hs
    exact ⟨s, stands, (canonical_symbolRule arranged contents stands).canonicalize_eq⟩
  · rw [extras_eq_of_quiet arranged kinds quiet contents] at mem
    obtain ⟨s, hs, rfl⟩ := List.mem_map.1 mem
    have stands := arranged.extras s hs
    rw [stands.isLeaf.leaves_eq, List.mem_singleton] at hl
    exact ⟨s, stands, hl⟩
  · rw [expandedInfos_eq_nil arranged kinds] at hidden
    cases hidden

end Written

section Restored

variable {c d : CompiledGrammar} (arranged : c.Arranged)
  (h : c.toGrammar.Compiles .default c.start d) (same : c.Restores d)

include h same

/-- The variables are what the rules of the written grammar are lowered to. -/
theorem shapes_of_restores : c.vars.map Variable.shape
    = (keptRules c.toGrammar.table c.start).map fun info => (info.name, info.kind,
      (c.toGrammar.naming c.start).bodyIn (c.toGrammar.lexicon c.start) info) :=
  same.shapes.symm.trans (h.shapes_eq rfl)

theorem exists_restored {v : Variable} (mem : v ∈ c.vars) :
    ∃ info ∈ keptRules c.toGrammar.table c.start, v.name = info.name ∧ v.kind = info.kind
      ∧ v.body = (c.toGrammar.naming c.start).bodyIn (c.toGrammar.lexicon c.start) info := by
  have listed := List.mem_map_of_mem (f := Variable.shape) mem
  rw [shapes_of_restores h same] at listed
  obtain ⟨info, kept, shape⟩ := List.mem_map.1 listed
  obtain ⟨name, rest⟩ := Prod.mk.inj shape
  obtain ⟨kind, body⟩ := Prod.mk.inj rest
  exact ⟨info, kept, name.symm, kind.symm, body.symm⟩

theorem kinds_of_restores : ∀ v ∈ c.vars, c.toGrammar.table.kind? v.name = some v.kind := by
  intro v mem
  obtain ⟨info, kept, name, kind, -⟩ := exists_restored h same mem
  have get := get?_of_mem_keptRules (Symbols.keyed_resolve c.toGrammar) kept
  rw [name, kind, SymbolTable.kind?, get, Option.map_some]

theorem lexicon_of_restores : c.lexicon = (c.toGrammar.lexicon c.start).entries :=
  same.lexicon.symm.trans (h.lexicon_eq_entries rfl)

theorem contents_of_restores : ∀ entry ∈ c.lexicon, entry.content.Canonical :=
  lexicon_of_restores h same ▸ h.canonical_entries

/-- The leaf that an anonymous entry was entered for. -/
theorem exists_source {id : Nat} {entry : LexicalEntry} (found : c.lexicon[id]? = some entry)
    (unnamed : entry.named = false) :
    ∃ leaf, IsSource c.toGrammar c.toGrammar.table c.start leaf
      ∧ (c.toGrammar.naming c.start).Sources leaf entry := by
  rw [lexicon_of_restores h same] at found
  exact sourced_lexiconOf (Symbols.keyed_resolve c.toGrammar)
    (quiet_extrasRun h.clean.normal) entry (List.mem_of_getElem? found) unnamed

include arranged

theorem used_of_restores {id : Nat} {entry : LexicalEntry} (found : c.lexicon[id]? = some entry)
    (unnamed : entry.named = false) :
    (∃ v ∈ c.vars, .lexical id ∈ v.body.symbols) ∨ .lexical id ∈ c.extras := by
  obtain ⟨leaf, source, sources⟩ := exists_source h same found unnamed
  have kinds := kinds_of_restores h same
  rw [lexicon_of_restores h same] at found
  have symbol := Naming.symbolIn_of_sources h.distinct_entries found unnamed sources
  rcases source with ⟨info, kept, kind, hl⟩ | ⟨extra, mem, hl⟩ | ⟨info, hidden, -⟩
  · have listed := List.mem_map_of_mem (f := fun info : SymbolInfo => (info.name, info.kind,
      (c.toGrammar.naming c.start).bodyIn (c.toGrammar.lexicon c.start) info)) kept
    rw [← shapes_of_restores h same] at listed
    obtain ⟨v, known, shape⟩ := List.mem_map.1 listed
    have body : v.body = _ := (Prod.mk.inj (Prod.mk.inj shape).2).2
    refine .inl ⟨v, known, ?_⟩
    rw [body, Naming.bodyIn, if_neg kind]
    exact Naming.mem_symbols_of_leaf symbol _ hl
  · have lowered := h.partsIn.extras
    have extras : c.extras = (partsRun c.toGrammar c.toGrammar.table c.start).1.extras := by
      rw [← same.extras, h.result]
      rfl
    rw [← extras] at lowered
    obtain ⟨place, bound, rfl⟩ := List.mem_iff_getElem.1 mem
    have inside : place < c.extras.length := lowered.length_eq ▸ bound
    have only := (lowered.get bound inside).1
    rw [List.get_eq_getElem, List.get_eq_getElem] at only
    have used := Naming.mem_symbols_of_leaf symbol _ hl
    rw [only] at used
    rw [List.mem_singleton.1 used]
    exact .inr (List.getElem_mem inside)
  · rw [expandedInfos_eq_nil arranged kinds] at hidden
    cases hidden

theorem apart_of_restores {entry : LexicalEntry} (mem : entry ∈ c.lexicon) {text : String}
    (unnamed : entry.named = false) (immediate : entry.immediate = false)
    (content : entry.content = .terminal (.literal text)) : ⟨text, false⟩ ∉ c.externals := by
  obtain ⟨id, found⟩ := List.getElem?_of_mem mem
  obtain ⟨leaf, source, sources⟩ := exists_source h same found unnamed
  -- The leaf is either the terminal itself, which is then no external token, or a token, but a
  -- token that is not immediate is never written around a terminal.
  obtain ⟨s, stands, rfl⟩ := exists_symbol_of_isSource arranged (kinds_of_restores h same)
    (contents_of_restores h same) (quiet_extrasRun h.clean.normal) source
  cases rule : c.symbolRule s with
  | terminal t =>
    rw [rule] at sources
    obtain ⟨inside, own, -⟩ := sources
    obtain rfl := Rule.terminal.inj (content.symm.trans own)
    intro outside
    rw [← naming_externals c.start] at outside
    have known := Naming.isSome_externalId? outside
    rw [show (c.toGrammar.naming c.start).externalId? text false = none from inside] at known
    cases known
  | token inner flag =>
    rw [rule] at sources
    obtain ⟨own, sameFlag⟩ := sources
    rw [← sameFlag, immediate] at rule
    obtain ⟨closed, canonical, other⟩ :=
      inner_symbolRule arranged (contents_of_restores h same) stands rule
    rw [Naming.innerContent_eq_self closed canonical] at own
    exact absurd (own.symm.trans content) (other _)
  | _ =>
    rw [rule] at sources
    exact sources.elim

theorem inlined_eq_nil {w : Variable} (mem : w ∈ d.vars) : w.inlined = [] := by
  rw [h.vars_eq] at mem
  obtain ⟨info, kept, rfl⟩ := List.mem_map.1 mem
  have keyed := Symbols.keyed_resolve c.toGrammar
  have get := get?_of_mem_keptRules keyed kept
  obtain ⟨inlined, entry, by_, -⟩ := exists_inlined keyed (quiet_extrasRun h.clean.normal) get
  obtain ⟨written, known, -, body⟩ := exists_rule arranged (SymbolTable.mem_infos.2 ⟨_, get⟩)
  refine List.eq_nil_iff_forall_not_mem.2 fun k used => ?_
  have listed : k ∈ inlined.used := by
    simpa [Naming.variableIn, OrderedMap.getD, entry] using used
  obtain ⟨j, occurs, hidden⟩ := (by_.used k listed).exists_hidden
  rw [Rule.mem_occurrences_canonicalize, body] at occurs
  rw [visible_rule arranged (kinds_of_restores h same) known j occurs] at hidden
  cases hidden

theorem covered_of_restores {table : Disambiguation} (mem : table ∈ c.precedence)
    (unresolved : table.unresolved ≠ []) {v : Variable} (found : c.vars[table.id]? = some v) :
    ∃ set ∈ c.toGrammar.conflicts, v.name ∈ set := by
  have tables : c.precedence = Disambiguation.tables (c.toGrammar.settled .default c.start) := by
    rw [← same.precedence, h.result]
    rfl
  have shape : (c.vars.map Variable.shape)[table.id]? = some v.shape := by
    rw [List.getElem?_map, found]
    rfl
  rw [← same.shapes, h.shapes, List.getElem?_map] at shape
  obtain ⟨w, lookup, shape⟩ := Option.map_eq_some_iff.1 shape
  have covered := Validation.ambiguityReport?_eq_none_iff.1
    (h.quiet.2.2 table (tables ▸ mem)) unresolved w lookup
  have none : w.inlined = [] := by
    have mem := List.mem_map_of_mem (f := Variable.inlined) (List.mem_of_getElem? lookup)
    have inlined : d.vars.map Variable.inlined
        = (c.toGrammar.settled .default c.start).vars.map Variable.inlined := by
      rw [h.result, ofNormalForm, List.map_map]
      rfl
    rw [← inlined] at mem
    obtain ⟨u, known, own⟩ := List.mem_map.1 mem
    exact own.symm.trans (inlined_eq_nil arranged h same known)
  rw [Conflicts.covers, none, List.any_nil, Bool.or_false, (Prod.mk.inj shape).1] at covered
  exact Validation.contains_ofDeclared.1 covered

/-- Only a compiled grammar under the conditions of `Restorable` is restored. -/
theorem restorable_of_restores : c.Restorable where
  names := h.names
  kinds := kinds_of_restores h same
  bodies v mem := by
    obtain ⟨info, -, -, -, body⟩ := exists_restored h same mem
    exact body ▸ Grammar.Compiles.canonical_bodyIn _ _ _
  contents := contents_of_restores h same
  distinct := lexicon_of_restores h same ▸ h.distinct_entries
  used _ _ := used_of_restores arranged h same
  apart _ mem _ := apart_of_restores arranged h same mem
  covered _ mem unresolved _ := covered_of_restores arranged h same mem unresolved

end Restored

end CompiledGrammar

end Productions
