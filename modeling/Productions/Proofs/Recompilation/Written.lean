import Productions.Proofs.Inlining.Visible
import Productions.Proofs.Recompilation.Arrangement

/-! The grammar written for a compiled grammar. Its rules are those of the variables and those of
the named entries that no variable wraps, under distinct names. -/
namespace Productions

namespace LexicalEntry

theorem isTokenShaped_toRule (entry : LexicalEntry) : entry.toRule.isTokenShaped = true := by
  unfold toRule
  split
  · split <;> rfl
  · rfl

theorem split_toRule (entry : LexicalEntry) :
    TokenContent.split entry.toRule = (entry.content, entry.immediate) := by
  unfold toRule
  split <;> rename_i content
  · split <;> rename_i immediate
    · rw [TokenContent.split, content, immediate]
    · rw [content]
      simp [TokenContent.split, immediate]
  · rfl

theorem isLeaf_toRule (entry : LexicalEntry) : entry.toRule.IsLeaf := by
  unfold toRule
  split
  · split <;> trivial
  · trivial

theorem occurrences_toRule {entry : LexicalEntry} (closed : entry.content.Closed) :
    entry.toRule.occurrences = [] := by
  unfold toRule
  split
  · split <;> rfl
  · exact closed.occurrences_eq

theorem canonical_content {entry : LexicalEntry} (h : entry.toRule.Canonical) :
    entry.content.Canonical := by
  unfold toRule at h
  split at h <;> rename_i content
  · rw [content]
    exact .terminal _
  · cases h with
    | token inner flat => exact inner

end LexicalEntry

namespace CompiledGrammar

variable {c : CompiledGrammar}

theorem mem_tokenRules {d : Definition} : d ∈ c.tokenRules ↔ ∃ id entry,
    c.lexicon[id]? = some entry ∧ entry.named = true ∧ id ∉ c.vars.filterMap wrappedEntry?
      ∧ d = ⟨entry.name, entry.toRule, false⟩ := by
  simp only [tokenRules, List.mem_map, List.mem_filter, List.mem_zipIdx_iff_getElem?,
    Bool.and_eq_true, Bool.not_eq_true', List.contains_eq_mem, decide_eq_false_iff_not]
  constructor
  · rintro ⟨⟨entry, id⟩, ⟨found, named, free⟩, rfl⟩
    exact ⟨id, entry, found, named, free, rfl⟩
  · rintro ⟨id, entry, found, named, free, rfl⟩
    exact ⟨(entry, id), ⟨found, named, free⟩, rfl⟩

namespace Arranged

variable (arranged : c.Arranged)

include arranged

theorem exists_wrapped {v : Variable} (mem : v ∈ c.vars) (kind : v.kind = .token) :
    ∃ id entry, wrappedEntry? v = some id ∧ v.body = .symbol (.lexical id)
      ∧ c.lexicon[id]? = some entry ∧ entry.named = true ∧ entry.name = v.name := by
  obtain ⟨id, entry, body, found, named, name⟩ := arranged.tokens v mem kind
  refine ⟨id, entry, ?_, body, found, named, name⟩
  unfold wrappedEntry?
  rw [kind, body]

omit arranged in
theorem wraps_none {v : Variable} (kind : v.kind ≠ .token) :
    wrappedEntry? v = none := by
  unfold wrappedEntry?
  split
  · rename_i token _
    exact absurd token kind
  · rfl

/-- The entry of the name of a token rule that is a variable is wrapped by it. -/
theorem mem_wrapped {v : Variable} {id : Nat} {entry : LexicalEntry} (mem : v ∈ c.vars)
    (found : c.lexicon[id]? = some entry) (named : entry.named = true)
    (name : entry.name = v.name) : id ∈ c.vars.filterMap wrappedEntry? := by
  have kind := arranged.namesakes v mem entry (List.mem_of_getElem? found) named name
  obtain ⟨place, own, wrapped, -, there, named', name'⟩ := arranged.exists_wrapped mem kind
  have same := arranged.once.eq_of_namesakes found there ⟨named, named', name.trans name'.symm⟩
  exact List.mem_filterMap.2 ⟨v, mem, same ▸ wrapped⟩

theorem nodup_rules : (c.toGrammar.rules.map Definition.name).Nodup := by
  have vars : (c.vars.map c.variableRule).map Definition.name = c.vars.map Variable.name := by
    rw [List.map_map]
    rfl
  rw [toGrammar, List.map_append, vars]
  refine List.nodup_append.2 ⟨arranged.names, ?_, ?_⟩
  · rw [tokenRules, List.map_map, List.Nodup, List.pairwise_map, List.pairwise_filter,
      List.pairwise_iff_getElem]
    intro i j hi hj less first second same
    simp only [List.getElem_zipIdx, Bool.and_eq_true] at first second
    rw [List.length_zipIdx] at hi hj
    simp only [Function.comp, List.getElem_zipIdx] at same
    have place := arranged.once.eq_of_namesakes (List.getElem?_eq_getElem hi)
      (List.getElem?_eq_getElem hj) ⟨first.1, second.1, same⟩
    omega
  · rintro name hname other hother rfl
    obtain ⟨v, mem, rfl⟩ := List.mem_map.1 hname
    obtain ⟨d, written, same⟩ := List.mem_map.1 hother
    obtain ⟨id, entry, found, named, free, rfl⟩ := mem_tokenRules.1 written
    exact free (arranged.mem_wrapped mem found named same)

theorem exists_of_mem_vars {v : Variable} (mem : v ∈ c.vars) :
    ∃ info, c.toGrammar.table.get? v.name = some info ∧ info.body = (c.variableRule v).body :=
  Symbols.exists_of_mem_rules arranged.nodup_rules
    (List.mem_append_left _ (List.mem_map_of_mem mem))

theorem exists_of_entry {id : Nat} {entry : LexicalEntry} (found : c.lexicon[id]? = some entry)
    (named : entry.named = true) :
    ∃ info, c.toGrammar.table.get? entry.name = some info ∧ info.body = entry.toRule := by
  by_cases wrapped : id ∈ c.vars.filterMap wrappedEntry?
  · obtain ⟨v, mem, wraps⟩ := List.mem_filterMap.1 wrapped
    have kind : v.kind = .token := by
      by_contra other
      rw [wraps_none other] at wraps
      cases wraps
    obtain ⟨place, own, wraps', -, there, -, name⟩ := arranged.exists_wrapped mem kind
    obtain rfl := Option.some.inj (wraps.symm.trans wraps')
    obtain rfl := Option.some.inj (found.symm.trans there)
    obtain ⟨info, get, body⟩ := arranged.exists_of_mem_vars mem
    refine ⟨info, name ▸ get, body.trans ?_⟩
    rw [variableRule, wraps]
    dsimp only
    rw [found]
    rfl
  · exact Symbols.exists_of_mem_rules arranged.nodup_rules (List.mem_append_right _
      (mem_tokenRules.2 ⟨id, entry, found, named, wrapped, rfl⟩))

omit arranged in
theorem kind?_eq_none {name : String} (vars : ∀ v ∈ c.vars, v.name ≠ name)
    (entries : ∀ entry ∈ c.lexicon, entry.named = true → entry.name ≠ name) :
    c.toGrammar.table.kind? name = none := by
  rw [SymbolTable.kind?, Option.map_eq_none_iff, Symbols.get?_eq_none_iff, Grammar.get?,
    List.find?_eq_none]
  intro d mem
  rcases List.mem_append.1 mem with mem | mem
  · obtain ⟨v, known, rfl⟩ := List.mem_map.1 mem
    simpa [variableRule] using vars v known
  · obtain ⟨id, entry, found, named, -, rfl⟩ := mem_tokenRules.1 mem
    simpa using entries entry (List.mem_of_getElem? found) named

variable (kinds : ∀ v ∈ c.vars, c.toGrammar.table.kind? v.name = some v.kind)

include kinds

theorem kind?_of_entry {id : Nat} {entry : LexicalEntry} (found : c.lexicon[id]? = some entry)
    (named : entry.named = true) : c.toGrammar.table.kind? entry.name = some .token := by
  by_cases own : ∃ v ∈ c.vars, entry.name = v.name
  · obtain ⟨v, mem, name⟩ := own
    rw [name, kinds v mem]
    exact congrArg some (arranged.namesakes v mem entry (List.mem_of_getElem? found) named name)
  · obtain ⟨info, get, body⟩ := arranged.exists_of_entry found named
    obtain ⟨d, first, name, describes⟩ := Symbols.describes_of_get? get
    have visible : d.hidden = false := by
      rcases List.mem_append.1 (List.mem_of_find?_eq_some first) with mem | mem
      · obtain ⟨v, known, rfl⟩ := List.mem_map.1 mem
        exact absurd ⟨v, known, name.symm⟩ own
      · obtain ⟨_, _, -, -, -, rfl⟩ := mem_tokenRules.1 mem
        rfl
    have token : c.toGrammar.isTokenRule d = true := by
      rw [Grammar.isTokenRule, ← describes.body, body, entry.isTokenShaped_toRule, visible]
      rfl
    rw [SymbolTable.kind?, get, Option.map_some, describes.token.2 token]

end Arranged

section Symbols

variable {id : Nat}

theorem symbolRule_rule {v : Variable} (found : c.vars[id]? = some v) :
    c.symbolRule (.rule id) = .symbol v.name := by
  rw [symbolRule, symbolName, found]
  rfl

theorem symbolRule_named {entry : LexicalEntry} (found : c.lexicon[id]? = some entry)
    (named : entry.named = true) : c.symbolRule (.lexical id) = .symbol entry.name := by
  rw [symbolRule, found]
  exact if_pos named

theorem symbolRule_anonymous {entry : LexicalEntry} (found : c.lexicon[id]? = some entry)
    (unnamed : entry.named = false) : c.symbolRule (.lexical id) = entry.toRule := by
  rw [symbolRule, found]
  exact if_neg (by simp [unnamed])

theorem symbolRule_outside {token : ExternalToken} (found : c.externals[id]? = some token) :
    c.symbolRule (.external id)
      = if token.named then .symbol token.name else .terminal (.literal token.name) := by
  rw [symbolRule, found]

end Symbols

theorem Stands.isLeaf {s : Symbol} (stands : c.Stands s) : (c.symbolRule s).IsLeaf := by
  cases stands with
  | rule => trivial
  | named found named =>
    rw [symbolRule_named found named]
    trivial
  | anonymous found unnamed =>
    rw [symbolRule_anonymous found unnamed]
    exact LexicalEntry.isLeaf_toRule _
  | outside found =>
    rw [symbolRule_outside found]
    split <;> trivial

theorem exprRules_eq_map (es : List Expr) : c.exprRules es = es.map c.exprRule := by
  induction es with
  | nil => rfl
  | cons e es ih => rw [exprRules, ih, List.map_cons]

/-- The leaves of a written body are the rules of its symbols. -/
theorem leaves_exprRule {e : Expr} (leaf : ∀ s ∈ e.symbols, (c.symbolRule s).IsLeaf) :
    (c.exprRule e).leaves = e.symbols.map c.symbolRule := by
  have all (es : List Expr) (leaf : ∀ s ∈ Expr.symbolsAll es, (c.symbolRule s).IsLeaf)
      (ih : ∀ e ∈ es, (∀ s ∈ e.symbols, (c.symbolRule s).IsLeaf) →
        (c.exprRule e).leaves = e.symbols.map c.symbolRule) :
      Rule.leavesAll (c.exprRules es) = (Expr.symbolsAll es).map c.symbolRule := by
    induction es with
    | nil => rfl
    | cons e es ihs =>
      simp only [Expr.symbolsAll, List.mem_append] at leaf
      rw [exprRules, Rule.leavesAll, Expr.symbolsAll, List.map_append,
        ih e (by simp) fun s hs => leaf s (.inl hs),
        ihs (fun s hs => leaf s (.inr hs)) fun f hf => ih f (by simp [hf])]
  induction e with
  | symbol s =>
    rw [exprRule, Expr.symbols, List.map_singleton]
    exact (leaf s (List.mem_singleton_self s)).leaves_eq
  | seq members ih | choice members ih => exact all members leaf ih
  | repeated _ ih | prec _ _ _ ih | aliased _ _ _ ih | field _ _ ih => exact ih leaf

namespace Arranged

variable (arranged : c.Arranged)
  (kinds : ∀ v ∈ c.vars, c.toGrammar.table.kind? v.name = some v.kind)

include arranged kinds

theorem visible_symbolRule {s : Symbol} (stands : c.Stands s) :
    (c.symbolRule s).Visible c.toGrammar.table.isInlined := by
  have named {name : String} {kind : Option SymbolKind}
      (known : c.toGrammar.table.kind? name = kind) (visible : kind ≠ some .hidden) :
      (Rule.symbol name).Visible c.toGrammar.table.isInlined := by
    intro k hk
    rw [List.mem_singleton.1 hk, SymbolTable.isInlined, known]
    exact beq_false_of_ne visible
  cases stands with
  | @rule id v found visible =>
    rw [symbolRule_rule found]
    refine named (kinds v (List.mem_of_getElem? found)) fun hidden => ?_
    rw [Variable.isHidden, Option.some.inj hidden] at visible
    cases visible
  | @named id entry found isNamed apart =>
    rw [symbolRule_named found isNamed]
    exact named (arranged.kind?_of_entry kinds found isNamed) (by simp)
  | @anonymous id entry found unnamed =>
    rw [symbolRule_anonymous found unnamed]
    intro k hk
    rw [LexicalEntry.occurrences_toRule (arranged.closed _ (List.mem_of_getElem? found))] at hk
    cases hk
  | @outside id token found last apart =>
    rw [symbolRule_outside found]
    split <;> rename_i isNamed
    · obtain ⟨vars, entries⟩ := apart isNamed
      exact named (kind?_eq_none vars entries) (by simp)
    · intro k hk
      cases hk

end Arranged

end CompiledGrammar

end Productions
