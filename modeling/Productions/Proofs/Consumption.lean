import Productions.Proofs.Levels
import Productions.Proofs.Normal.Preservation
import Productions.Proofs.Validity

/-! Compiled grammars consume. No token derives the empty text, and nothing that derives it is
repeated: not in variables, not in tokens, and not in hidden rules, although the check passes over
hidden rules that were expanded. What they repeat is found again where they were expanded, in a
variable or in a token. -/
namespace Productions

open scoped Computability

namespace NormalForm

open Inlining

variable {g : Grammar} {start : String}

section Clean

variable (clean : Clean g start)

include clean

/-- A repetition in a token stays in its content, and is empty there if it is empty in the source. -/
theorem exists_empty_repeat {owner : String} {chain : List String} (nodup : chain.Nodup)
    (known : ∀ k ∈ chain, k ∈ (g.naming start).bodies.keys) {rule c : Rule}
    (quiet : TokenContent.reports g.table (g.naming start).bodies owner chain rule = [])
    (mem : c ∈ rule.repeats) (empty : Vanishes (c.language (annotated (sourceLanguage g)))) :
    ∃ c' ∈ ((TokenContent.of g.table (g.naming start).bodies chain rule).canonicalize).repeats,
      Vanishes (contentLanguage c') := by
  refine ⟨_, Rule.mem_repeats_canonicalize (TokenContent.mem_repeats_close mem), ?_⟩
  rw [contentLanguage_canonicalize, contentLanguage_eq]
  refine vanishes_bared.1 ?_
  rw [TokenContent.bared_language_close c fun k hk => TokenContent.stands_replacement
    (faithful_bodies clean) _ nodup known (by omega)
    (List.flatMap_eq_nil_iff.1 quiet k (Rule.mem_occurrences_of_repeats hk mem))]
  exact vanishes_bared.2 empty

/-- What derives the empty text once it has been lowered derives it in the source. -/
theorem vanishes_of_derivesEmpty {name : String} {info : SymbolInfo}
    (get : g.table.get? name = some info)
    (placed : ∀ leaf ∈ ((g.naming start).bodyOf name).leaves,
      (g.naming start).Placed (g.lexicon start) leaf) {part : Rule} (plain : part.isPlain = true)
    (leaves : ∀ leaf ∈ part.leaves, leaf ∈ ((g.naming start).bodyOf name).leaves)
    (empty : ((g.naming start).lowered (g.lexicon start) part).DerivesEmpty
      (g.normalForm start).numbering) : Vanishes (part.language (annotated (sourceLanguage g))) := by
  obtain ⟨w, derives, silent⟩ := empty
  rw [language_lowered_eq clean get placed plain leaves]
  exact ⟨w, Expr.derives_iff_mem.1 (derives.of_scanned silent), silent⟩

/-- A hidden rule that was expanded into a variable repeats what the variable's rule repeats. -/
theorem mem_repeats_of_used {info hidden : SymbolInfo} (kept : info ∈ keptRules g.table start)
    (used : hidden.name ∈ ((inlinedRules g.table).getD info.name .blank).used)
    (mem : hidden ∈ expandedInfos start g.table.infos) {c : Rule}
    (hc : c ∈ ((g.naming start).bodyOf hidden.name).repeats) :
    c ∈ ((g.naming start).bodyOf info.name).repeats := by
  have keyed := Symbols.keyed_resolve g
  have quiet := quiet_extrasRun clean.normal
  have isHidden : g.table.isInlined hidden.name = true := by
    obtain ⟨listed, kind⟩ := List.mem_filter.1 mem
    rw [Bool.and_eq_true, decide_eq_true_iff] at kind
    exact isInlined_iff.2 ⟨hidden, keyed.get?_name listed, kind.1⟩
  obtain ⟨own, ownEntry, -, expansion⟩ :=
    exists_inlined keyed quiet (keyed.get?_name (List.mem_filter.1 mem).1)
  obtain ⟨inlined, entry, by_, -⟩ :=
    exists_inlined keyed quiet (get?_of_mem_keptRules keyed kept)
  rw [OrderedMap.getD, entry, Option.getD_some] at used
  rw [bodyOf_eq ownEntry, ← ruleIn_eq (expansion isHidden)] at hc
  rw [bodyOf_eq entry, by_.rule]
  exact mem_repeats_of_reaches (by_.used _ used) by_.inner hc

/-- An empty repetition of a hidden rule that was expanded into a variable is one of the variable
or of a token. -/
theorem exists_empty_of_used {info hidden : SymbolInfo} (kept : info ∈ keptRules g.table start)
    (used : hidden.name ∈ ((inlinedRules g.table).getD info.name .blank).used)
    (mem : hidden ∈ expandedInfos start g.table.infos) {e : Expr}
    (he : e ∈ ((g.naming start).lowered (g.lexicon start)
      ((g.naming start).bodyOf hidden.name)).repeats)
    (empty : e.DerivesEmpty (g.normalForm start).numbering) :
    e ∈ ((g.naming start).bodyIn (g.lexicon start) info).repeats
      ∨ ∃ entry ∈ (g.lexicon start).entries, ∃ c ∈ entry.content.repeats,
        Vanishes (contentLanguage c) := by
  have keyed := Symbols.keyed_resolve g
  have parts := partsIn_partsRun keyed clean.normal
  have entered := entered_lexiconOf keyed clean.normal
  have plain : (g.naming start).Plain := plain_namingOf keyed (quiet_extrasRun clean.normal)
  obtain ⟨c, hc, rfl, leaves, plainPart⟩ := Naming.exists_of_mem_repeats_lowered he
  have vanishes := vanishes_of_derivesEmpty clean (keyed.get?_name (List.mem_filter.1 mem).1)
    (parts.hidden hidden mem) (plainPart (plain hidden.name)) leaves empty
  have again := mem_repeats_of_used clean kept used mem hc
  have get := get?_of_mem_keptRules keyed kept
  have placed := parts.bodies info kept
  rw [Naming.BodyPlaced] at placed
  by_cases kind : info.kind = .token
  · rw [if_pos kind] at placed
    obtain ⟨id, found⟩ := Option.isSome_iff_exists.1 placed
    obtain ⟨entry, lookup, named, name⟩ := Lexicon.exists_of_findNamed? found
    obtain ⟨-, content, -, quiet⟩ := entered.named entry (List.mem_of_getElem? lookup) named
    rw [name] at content quiet
    refine .inr ⟨entry, List.mem_of_getElem? lookup, ?_⟩
    rw [content]
    refine exists_empty_repeat clean (by simp) ?_ quiet ?_ vanishes
    · intro k hk
      rw [List.mem_singleton.1 hk]
      exact mem_keys_bodies clean get
    · rw [Naming.tokenBody, TokenContent.repeats_split]
      exact again
  · rw [if_neg kind] at placed
    rw [Naming.bodyIn, if_neg kind]
    refine (Naming.mem_repeats_lowered again).imp_right ?_
    rintro ⟨content, immediate, leaf, hc⟩
    obtain ⟨isSome, owner, quiet⟩ := placed _ leaf
    obtain ⟨symbol, found⟩ := Option.isSome_iff_exists.1 isSome
    obtain ⟨id, anonymous, -⟩ := Option.map_eq_some_iff.1 found
    obtain ⟨entry, lookup, -, same, -⟩ := Lexicon.exists_of_findAnonymous? anonymous
    refine ⟨entry, List.mem_of_getElem? lookup, ?_⟩
    rw [same]
    exact exists_empty_repeat clean (by simp) (by simp) quiet hc vanishes

/-- The expansions are the lowered bodies of the hidden rules. -/
theorem get?_expansions_iff {name : String} {body : Expr} :
    (g.normalForm start).expansions.get? name = some body
      ↔ ∃ hidden ∈ expandedInfos start g.table.infos, hidden.name = name
        ∧ body = (g.naming start).lowered (g.lexicon start) ((g.naming start).bodyOf name) := by
  have keyed := Symbols.keyed_resolve g
  have parts := partsIn_partsRun keyed clean.normal
  have expansions : (g.normalForm start).expansions
      = OrderedMap.ofList ((expandedInfos start g.table.infos).map fun info => (info.name,
        (g.naming start).lowered (g.lexicon start) ((g.naming start).bodyOf info.name))) :=
    congrArg _ parts.expansions
  have nodup : (((expandedInfos start g.table.infos).map fun info => (info.name,
      (g.naming start).lowered (g.lexicon start) ((g.naming start).bodyOf info.name))).map
      Prod.fst).Nodup := by
    rw [List.map_map]
    refine List.Nodup.sublist (List.Sublist.map _ List.filter_sublist) ?_
    change (g.table.infos.map SymbolInfo.name).Nodup
    rw [keyed.names_eq]
    exact g.table.rules.nodup_keys
  rw [expansions, OrderedMap.get?_ofList nodup]
  have entry := OrderedMap.get?_eq_some_iff (m := ⟨_, nodup⟩) (k := name) (a := body)
  refine entry.trans ?_
  simp only [List.mem_map, Prod.mk.injEq]
  constructor
  · rintro ⟨hidden, listed, rfl, rfl⟩
    exact ⟨hidden, listed, rfl, rfl⟩
  · rintro ⟨hidden, listed, rfl, rfl⟩
    exact ⟨hidden, listed, rfl, rfl⟩

end Clean

end NormalForm

namespace Grammar.Compiles

open NormalForm

variable {g : Grammar} {settings : Settings} {start : String} {c : CompiledGrammar}

/-- Nothing that is repeated in the body of a variable derives the empty text. -/
theorem not_derivesEmpty_of_body (h : g.Compiles settings start c) {v : Variable}
    (mem : v ∈ (g.settled settings start).vars) {e : Expr} (he : e ∈ v.body.repeats) :
    ¬ e.DerivesEmpty (g.settled settings start).numbering := by
  intro empty
  have quiet := (Validation.consuming_of_repeatReports h.quiet.2.1).1 v mem
  rw [(Expr.hasEmptyRepeat_iff v.body).2 ⟨e, he, (nullable_iff_derivesEmpty _ e).2 empty⟩] at quiet
  cases quiet

/-- Nothing that is repeated in the content of a token derives the empty text. -/
theorem not_vanishes_of_content (h : g.Compiles settings start c) {entry : LexicalEntry}
    (mem : entry ∈ (g.settled settings start).lexicon) {r : Rule}
    (hr : r ∈ entry.content.repeats) : ¬ Vanishes (contentLanguage r) := by
  intro empty
  have quiet := (Validation.consuming_of_repeatReports h.quiet.2.1).2.2 entry mem
  rw [entry.content.hasEmptyTokenRepeat_iff.2 ⟨r, hr, (nullable_content_iff r).2 empty⟩] at quiet
  cases quiet

/-- Nothing that is repeated in a hidden rule derives the empty text, although hidden rules that
were expanded are not looked at. -/
theorem not_derivesEmpty_of_expansion (h : g.Compiles settings start c) {name : String}
    {body e : Expr} (get : (g.settled settings start).expansions.get? name = some body)
    (he : e ∈ body.repeats) : ¬ e.DerivesEmpty (g.settled settings start).numbering := by
  intro empty
  have vars : (g.normalForm start).vars = _ :=
    (partsIn_partsRun (Symbols.keyed_resolve g) h.clean.normal).vars
  have faulty := (Expr.hasEmptyRepeat_iff body).2 ⟨e, he, (nullable_iff_derivesEmpty _ e).2 empty⟩
  obtain ⟨_, listedVar, used⟩ :=
    (Validation.consuming_of_repeatReports h.quiet.2.1).2.1 name body get faulty
  obtain ⟨v, mem, rfl⟩ := List.mem_map.1 listedVar
  rw [vars] at mem
  obtain ⟨info, kept, rfl⟩ := List.mem_map.1 mem
  simp only [settled, resolveLevels, OrderedMap.get?_mapValues, Option.map_eq_some_iff] at get
  obtain ⟨body, get, rfl⟩ := get
  rw [Expr.repeats_resolveLevels] at he
  obtain ⟨e, own, rfl⟩ := List.mem_map.1 he
  obtain ⟨hidden, listed, rfl, rfl⟩ := (get?_expansions_iff h.clean).1 get
  rcases exists_empty_of_used h.clean kept used listed own
    ((derivesEmpty_resolveLevels _ e).1 empty) with stays | ⟨entry, lookup, r, hr, vanishes⟩
  · refine h.not_derivesEmpty_of_body listedVar ?_ empty
    rw [Expr.repeats_resolveLevels]
    exact List.mem_map_of_mem stays
  · have lifted : ⟨entry.name, entry.named, entry.content.resolveLevels (g.levels settings),
        entry.immediate⟩ ∈ (g.settled settings start).lexicon := List.mem_map_of_mem lookup
    have quiet := (Validation.consuming_of_repeatReports h.quiet.2.1).2.2 _ lifted
    simp only [Rule.hasEmptyTokenRepeat_resolveLevels] at quiet
    rw [entry.content.hasEmptyTokenRepeat_iff.2 ⟨r, hr, (nullable_content_iff r).2 vanishes⟩]
      at quiet
    cases quiet

end Grammar.Compiles

namespace CompiledGrammar

variable {g : Grammar} {settings : Settings} {c : CompiledGrammar}

/-- In a grammar that compiles, no token derives the empty text, all patterns are readable, and
nothing that derives the empty text is repeated in a token, a variable or a hidden rule. -/
theorem consumes (compiled : g.compile settings = .ok c) :
    (∀ entry ∈ c.lexicon, ¬ Vanishes (contentLanguage entry.content)
      ∧ (∀ value flags, .pattern value flags ∈ entry.content.terminals →
        Pattern.problem? value flags = none)
      ∧ ∀ r ∈ entry.content.repeats, ¬ Vanishes (contentLanguage r))
    ∧ (∀ v ∈ c.vars, ∀ e ∈ v.body.repeats, ¬ e.DerivesEmpty c.numbering)
    ∧ ∀ d, g.disambiguated settings = .ok d →
      ∀ name body, d.normal.expansions.get? name = some body →
        ∀ e ∈ body.repeats, ¬ e.DerivesEmpty c.numbering := by
  obtain ⟨start, h⟩ := Grammar.compile_eq_ok compiled
  have lexicon : c.lexicon = (g.settled settings start).lexicon := by rw [h.result]; rfl
  have vars : c.vars = (g.settled settings start).vars.map
      fun v => { v with fields := (g.settled settings start).fieldsOf v.body } := by
    rw [h.result]
    rfl
  rw [numbering_eq h, lexicon, vars]
  refine ⟨fun entry mem => ?_, fun v mem e he => ?_, fun d settled name body get e he => ?_⟩
  · obtain ⟨readable, full⟩ := Validation.sound_of_tokenReports (h.quiet.1 entry mem)
    refine ⟨fun empty => ?_, readable, fun r hr => h.not_vanishes_of_content mem hr⟩
    rw [(nullable_content_iff entry.content).2 empty] at full
    cases full
  · obtain ⟨v, listed, rfl⟩ := List.mem_map.1 mem
    exact h.not_derivesEmpty_of_body listed he
  · obtain ⟨start', h', rfl⟩ := Grammar.disambiguated_eq_ok settled
    obtain rfl := Except.ok.inj (h'.first.symm.trans h.first)
    exact h.not_derivesEmpty_of_expansion get he

/-- Lists of numerals, with a hidden rule for what follows the first one. -/
def numerals : Grammar where
  name := "numerals"
  rules := [
    ⟨"list", .seq [.symbol "numeral", .symbol "_more"], false⟩,
    ⟨"_more", .repeated (.seq [.terminal (.literal ","), .symbol "numeral"]) .zeroOrMore, true⟩,
    ⟨"numeral", .token (.repeated (.terminal (.literal "1")) .oneOrMore) false, false⟩]
  extras := []
  precedences := []
  conflicts := []
  externals := []
  inlined := []
  supertypes := []
  word := none

theorem consumes_numerals : ∃ c v e, numerals.compile .default = .ok c ∧ v ∈ c.vars
    ∧ v.inlined = ["_more"] ∧ e ∈ v.body.repeats ∧ ¬ e.DerivesEmpty c.numbering := by
  have parts : (numerals.compile .default).toOption.map
      (fun c => c.vars.map fun v => (v.inlined, v.body.repeats)) = some
        [(["_more"], [.seq [.symbol (.lexical 1), .symbol (.lexical 0)]])] := by cbv
  cases compiled : numerals.compile .default with
  | error f => simp [compiled, Except.toOption] at parts
  | ok c =>
    simp only [compiled, Except.toOption, Option.map_some, Option.some.injEq] at parts
    obtain ⟨v, vars, shape⟩ := List.map_eq_singleton_iff.1 parts
    rw [Prod.mk.injEq] at shape
    have mem : v ∈ c.vars := by simp [vars]
    have repeated : .seq [.symbol (.lexical 1), .symbol (.lexical 0)] ∈ v.body.repeats := by
      simp [shape.2]
    exact ⟨c, v, _, rfl, mem, shape.1, repeated, (consumes compiled).2.1 v mem _ repeated⟩

end CompiledGrammar

end Productions
