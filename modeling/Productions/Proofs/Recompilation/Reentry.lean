import Productions.Proofs.Recompilation.Restorable

/-! What is written can be read again. The rule of a symbol is lowered to the symbol, so that
different expressions have different rules, everything written is canonical, and every body is
inlined as it stands. -/
namespace Productions

open NormalForm

theorem Naming.innerContent_eq_self {n : Naming} {content : Rule} (closed : content.Closed)
    (canonical : content.Canonical) : n.innerContent content = content := by
  rw [innerContent, TokenContent.of_eq_self closed, canonical.canonicalize_eq]

def LexicalEntry.Inside (n : Naming) (entry : LexicalEntry) : Prop :=
  ∀ t, entry.immediate = false → entry.content = .terminal t → n.outside? t = none

namespace LexicalEntry

variable {n : Naming} {entry : LexicalEntry} (closed : entry.content.Closed)
  (canonical : entry.content.Canonical)

include closed canonical

theorem canonical_toRule : entry.toRule.Canonical := by
  unfold toRule
  split <;> rename_i content
  · split
    · exact .token (.terminal _) nofun
    · exact .terminal _
  · refine .token canonical fun token => ?_
    generalize entry.content = content at closed token
    cases closed <;> exact token

theorem symbolIn_toRule (inside : entry.Inside n) (L : Lexicon) :
    n.symbolIn L entry.toRule
      = (L.findAnonymous? entry.content entry.immediate).map Symbol.lexical := by
  unfold toRule
  split <;> rename_i content
  · split <;> rename_i immediate
    · rw [Naming.symbolIn, Naming.innerContent_eq_self (.terminal _) (.terminal _), content,
        immediate]
    · have flag : entry.immediate = false := by simpa using immediate
      rw [Naming.symbolIn, inside _ flag content, content, flag]
      rfl
  · rw [Naming.symbolIn, Naming.innerContent_eq_self closed canonical]

end LexicalEntry

namespace CompiledGrammar

section Inlining

variable {c : CompiledGrammar} (arranged : c.Arranged)
  (kinds : ∀ v ∈ c.vars, c.toGrammar.table.kind? v.name = some v.kind)
  (quiet : (extrasRun c.toGrammar c.toGrammar.table).2.reports = [])

include arranged

theorem canonical_symbolRule (contents : ∀ entry ∈ c.lexicon, entry.content.Canonical) {s : Symbol}
    (stands : c.Stands s) : (c.symbolRule s).Canonical := by
  cases stands with
  | rule found => exact .symbol _
  | named found named => exact symbolRule_named found named ▸ .symbol _
  | anonymous found unnamed =>
    have mem := List.mem_of_getElem? found
    rw [symbolRule_anonymous found unnamed]
    exact LexicalEntry.canonical_toRule (arranged.closed _ mem) (contents _ mem)
  | outside found =>
    rw [symbolRule_outside found]
    split
    · exact .symbol _
    · exact .terminal _

include kinds quiet

/-- Nothing is inlined into a written body. -/
theorem bodyOf_eq_canonicalize {name : String} {info : SymbolInfo}
    (get : c.toGrammar.table.get? name = some info) :
    (c.toGrammar.naming c.start).bodyOf name = info.body.canonicalize := by
  obtain ⟨inlined, entry, by_, -⟩ := exists_inlined (Symbols.keyed_resolve c.toGrammar) quiet get
  obtain ⟨d, written, -, body⟩ := exists_rule arranged (SymbolTable.mem_infos.2 ⟨name, get⟩)
  have canonical := Rule.canonical_canonicalize info.body
  have visible : info.body.canonicalize.Visible c.toGrammar.table.isInlined := fun k hk =>
    visible_rule arranged kinds written k (body ▸ (Rule.mem_occurrences_canonicalize _).1 hk)
  rw [bodyOf_eq entry, by_.rule, canonical.unfoldNames_eq visible, canonical.canonicalize_eq]

theorem extras_eq_of_quiet (contents : ∀ entry ∈ c.lexicon, entry.content.Canonical) :
    (extrasRun c.toGrammar c.toGrammar.table).1 = c.toGrammar.extras := by
  have inlined := extras_inlined (g := c.toGrammar) (Symbols.keyed_resolve c.toGrammar) quiet
  have each : List.Forall₂ Eq c.toGrammar.extras
      (extrasRun c.toGrammar c.toGrammar.table).1 := by
    refine List.Forall₂.imp ?_ ((List.forall₂_and_left _ _).2 ⟨fun r mem => mem, inlined⟩)
    rintro r rule ⟨mem, used, by_⟩
    obtain ⟨s, hs, rfl⟩ := List.mem_map.1 mem
    have canonical := canonical_symbolRule arranged contents (arranged.extras s hs)
    have rule_eq := by_.rule
    rw [canonical.unfoldNames_eq (arranged.visible_symbolRule kinds (arranged.extras s hs)),
      canonical.canonicalize_eq] at rule_eq
    exact rule_eq.symm
  exact (List.forall₂_eq_eq_eq ▸ each : _ = _).symm

end Inlining

section Restorable

variable {c : CompiledGrammar} (arranged : c.Arranged) (restorable : c.Restorable)

theorem naming_externals (start : String) : (c.toGrammar.naming start).externals = c.externals := by
  have each (token : ExternalToken) : ExternalToken.ofRule? (if token.named then
      .symbol token.name else .terminal (.literal token.name)) = some token := by
    obtain ⟨name, named⟩ := token
    cases named <;> rfl
  simp only [Grammar.naming, namingOf, toGrammar, List.filterMap_map]
  exact (List.filterMap_congr fun token _ => each token).trans List.filterMap_some

include arranged restorable

omit arranged in
theorem inside_of_anonymous {id : Nat} {entry : LexicalEntry}
    (found : c.lexicon[id]? = some entry) (unnamed : entry.named = false) :
    entry.Inside (c.toGrammar.naming c.start) := by
  intro t immediate content
  cases t with
  | pattern value flags => rfl
  | literal text =>
    by_contra outside
    obtain ⟨place, outside⟩ := Option.ne_none_iff_exists'.1 outside
    obtain ⟨⟨_, _⟩, there, rfl, rfl⟩ := Naming.exists_of_externalId? outside
    rw [naming_externals c.start] at there
    exact restorable.apart entry (List.mem_of_getElem? found) _ unnamed immediate content
      (List.mem_of_getElem? there)

/-- With its lexical table complete, the rule of a symbol is lowered to the symbol. -/
theorem symbolIn_symbolRule {L : Lexicon} (complete : L.entries = c.lexicon) {s : Symbol}
    (stands : c.Stands s) :
    (c.toGrammar.naming c.start).symbolIn L (c.symbolRule s) = some s := by
  cases stands with
  | @rule id v found =>
    rw [symbolRule_rule found, Naming.symbolIn, Naming.nameIn,
      get?_variable arranged restorable.kinds found]
  | @named id entry found named apart =>
    have kind := arranged.kind?_of_entry restorable.kinds found named
    rw [symbolRule_named found named, Naming.symbolIn, Naming.nameIn,
      get?_eq_none_of_apart arranged restorable.kinds apart]
    dsimp only
    rw [show (c.toGrammar.naming c.start).table.kind? entry.name = some .token from kind]
    dsimp only
    rw [Lexicon.findNamed?_of_namedOnce (complete ▸ arranged.once) (complete ▸ found) named]
    rfl
  | @anonymous id entry found unnamed =>
    rw [symbolRule_anonymous found unnamed,
      LexicalEntry.symbolIn_toRule (arranged.closed _ (List.mem_of_getElem? found))
        (restorable.contents _ (List.mem_of_getElem? found))
        (inside_of_anonymous restorable found unnamed),
      Lexicon.findAnonymous?_of_distinct (complete ▸ restorable.distinct) (complete ▸ found)
        unnamed]
    rfl
  | @outside id token found last apart =>
    have place := last _ (naming_externals c.start)
    rw [symbolRule_outside found]
    split <;> rename_i named
    · obtain ⟨vars, entries⟩ := apart named
      rw [named] at place
      rw [Naming.symbolIn, Naming.nameIn, get?_eq_none_of_apart arranged restorable.kinds vars]
      dsimp only
      rw [show (c.toGrammar.naming c.start).table.kind? token.name = none from
        Arranged.kind?_eq_none vars entries, place]
      rfl
    · have flag : token.named = false := by simpa using named
      rw [flag] at place
      rw [Naming.symbolIn, Naming.outside?, place]
      rfl

theorem lowered_symbolRule {L : Lexicon} (complete : L.entries = c.lexicon) {s : Symbol}
    (stands : c.Stands s) :
    (c.toGrammar.naming c.start).lowered L (c.symbolRule s) = .symbol s := by
  rw [Naming.lowered_of_isLeaf stands.isLeaf,
    symbolIn_symbolRule arranged restorable complete stands]
  rfl

/-- Lowering undoes writing. -/
theorem lowered_exprRule {L : Lexicon} (complete : L.entries = c.lexicon) {e : Expr}
    (canonical : e.Canonical) (stands : ∀ s ∈ e.symbols, c.Stands s) :
    (c.toGrammar.naming c.start).lowered L (c.exprRule e) = e := by
  have all (es : List Expr) (stands : ∀ s ∈ Expr.symbolsAll es, c.Stands s)
      (ih : ∀ e ∈ es, (∀ s ∈ e.symbols, c.Stands s) →
        (c.toGrammar.naming c.start).lowered L (c.exprRule e) = e) :
      (c.toGrammar.naming c.start).loweredAll L (c.exprRules es) = es := by
    induction es with
    | nil => rfl
    | cons e es ihs =>
      simp only [Expr.symbolsAll, List.mem_append] at stands
      rw [exprRules, Naming.loweredAll, ih e (by simp) fun s hs => stands s (.inl hs),
        ihs (fun s hs => stands s (.inr hs)) fun f hf => ih f (by simp [hf])]
  induction canonical with
  | symbol s =>
    exact lowered_symbolRule arranged restorable complete (stands s (List.mem_singleton_self s))
  | seq _ flat several ih =>
    rw [exprRule, Naming.lowered, all _ stands ih, Expr.makeSeq_eq_seq flat several]
  | choice _ flat distinct several ih =>
    rw [exprRule, Naming.lowered, all _ stands ih,
      Expr.makeChoice_eq_choice flat distinct several]
  | repeated _ ih | prec _ ih | aliased _ ih | field _ ih =>
    rw [exprRule, Naming.lowered, ih stands]

/-- Different canonical expressions are written as different rules. -/
theorem eq_of_exprRule_eq {e f : Expr} (first : e.Canonical) (second : f.Canonical)
    (left : ∀ s ∈ e.symbols, c.Stands s) (right : ∀ s ∈ f.symbols, c.Stands s)
    (same : c.exprRule e = c.exprRule f) : e = f := by
  have complete : (Lexicon.ofEntries c.lexicon ∅).entries = c.lexicon := rfl
  rw [← lowered_exprRule arranged restorable complete first left, same,
    lowered_exprRule arranged restorable complete second right]

omit arranged restorable in
theorem isSeq_of_exprRule {e : Expr} (leaf : ∀ s ∈ e.symbols, (c.symbolRule s).IsLeaf)
    (h : (c.exprRule e).IsSeq) : e.IsSeq := by
  cases e with
  | seq => trivial
  | symbol s =>
    have isLeaf := leaf s (List.mem_singleton_self s)
    rw [exprRule] at h
    revert isLeaf h
    cases c.symbolRule s <;> simp [Rule.IsLeaf, Rule.IsSeq]
  | _ => exact h.elim

omit arranged restorable in
theorem isChoice_of_exprRule {e : Expr} (leaf : ∀ s ∈ e.symbols, (c.symbolRule s).IsLeaf)
    (h : (c.exprRule e).IsChoice) : e.IsChoice := by
  cases e with
  | choice => trivial
  | symbol s =>
    have isLeaf := leaf s (List.mem_singleton_self s)
    rw [exprRule] at h
    revert isLeaf h
    cases c.symbolRule s <;> simp [Rule.IsLeaf, Rule.IsChoice]
  | _ => exact h.elim

/-- A canonical expression is written as a canonical rule: no two alternatives have one rule. -/
theorem canonical_exprRule {e : Expr} (canonical : e.Canonical)
    (stands : ∀ s ∈ e.symbols, c.Stands s) : (c.exprRule e).Canonical := by
  have member {es : List Expr} (stands : ∀ s ∈ Expr.symbolsAll es, c.Stands s) {e : Expr}
      (mem : e ∈ es) : ∀ s ∈ e.symbols, c.Stands s := by
    rw [Expr.symbolsAll_eq_flatMap] at stands
    exact fun s hs => stands s (List.mem_flatMap.2 ⟨e, mem, hs⟩)
  induction canonical with
  | symbol s =>
    exact canonical_symbolRule arranged restorable.contents
      (stands s (List.mem_singleton_self s))
  | @seq members _ flat several ih =>
    rw [exprRule, exprRules_eq_map]
    refine .seq (List.forall_mem_map.2 fun e he => ih e he (member stands he))
      (List.forall_mem_map.2 fun e he isSeq => ?_) (by simpa using several)
    exact flat e he (isSeq_of_exprRule (fun s hs => (member stands he s hs).isLeaf) isSeq)
  | @choice members each flat distinct several ih =>
    rw [exprRule, exprRules_eq_map]
    refine .choice (List.forall_mem_map.2 fun e he => ih e he (member stands he))
      (List.forall_mem_map.2 fun e he isChoice => ?_) ?_ (by simpa using several)
    · exact flat e he (isChoice_of_exprRule (fun s hs => (member stands he s hs).isLeaf) isChoice)
    · exact distinct.map_on fun e he f hf => eq_of_exprRule_eq arranged restorable (each e he)
        (each f hf) (member stands he) (member stands hf)
  | repeated _ ih => exact .repeated (ih stands)
  | prec _ ih => exact .prec (ih stands)
  | aliased _ ih => exact .aliased (ih stands)
  | field _ ih => exact .field (ih stands)

theorem canonical_rule {d : Definition} (mem : d ∈ c.toGrammar.rules) : d.body.Canonical := by
  have entries {id : Nat} {entry : LexicalEntry} (found : c.lexicon[id]? = some entry) :
      entry.toRule.Canonical := by
    have mem := List.mem_of_getElem? found
    exact LexicalEntry.canonical_toRule (arranged.closed _ mem) (restorable.contents _ mem)
  rcases List.mem_append.1 mem with mem | mem
  · obtain ⟨v, known, rfl⟩ := List.mem_map.1 mem
    by_cases kind : v.kind = .token
    · obtain ⟨id, entry, found, body⟩ := body_variableRule_of_token arranged known kind
      exact body ▸ entries found
    · rw [body_variableRule kind]
      exact canonical_exprRule arranged restorable (restorable.bodies v known)
        (arranged.bodies v known kind)
  · obtain ⟨id, entry, found, -, -, rfl⟩ := mem_tokenRules.1 mem
    exact entries found

theorem canonical_body {info : SymbolInfo} (mem : info ∈ c.toGrammar.table.infos) :
    info.body.Canonical ∧ info.body.Visible c.toGrammar.table.isInlined := by
  obtain ⟨d, written, -, body⟩ := exists_rule arranged mem
  rw [body]
  exact ⟨canonical_rule arranged restorable written,
    visible_rule arranged restorable.kinds written⟩

theorem quiet_inlining : (extrasRun c.toGrammar c.toGrammar.table).2.reports = [] := by
  have keyed := Symbols.keyed_resolve c.toGrammar
  have rules : (inlineRun c.toGrammar.table).2.reports = [] :=
    Inlining.inlineRules_of_visible (fun info mem => keyed.get?_name mem)
      (fun info mem => by
        obtain ⟨canonical, visible⟩ := canonical_body arranged restorable mem
        rwa [canonical.canonicalize_eq])
      (show (inlineRules _ _).run Inlining.start = ((inlineRun _).1, (inlineRun _).2) from rfl)
  have extras : (inlineRun c.toGrammar.table).2 = (extrasRun c.toGrammar c.toGrammar.table).2 :=
    Inlining.inlineExtras_of_visible (fun r mem => visible_extra arranged restorable.kinds mem)
      (show (inlineExtras _ _).run _ = ((extrasRun c.toGrammar c.toGrammar.table).1, _) from rfl)
  rw [← extras, rules]

theorem bodyOf_eq_body {name : String} {info : SymbolInfo}
    (get : c.toGrammar.table.get? name = some info) :
    (c.toGrammar.naming c.start).bodyOf name = info.body := by
  obtain ⟨canonical, -⟩ :=
    canonical_body arranged restorable (SymbolTable.mem_infos.2 ⟨name, get⟩)
  rw [bodyOf_eq_canonicalize arranged restorable.kinds (quiet_inlining arranged restorable) get,
    canonical.canonicalize_eq]

theorem extras_eq : (extrasRun c.toGrammar c.toGrammar.table).1 = c.toGrammar.extras :=
  extras_eq_of_quiet arranged restorable.kinds (quiet_inlining arranged restorable)
    restorable.contents

end Restorable

end CompiledGrammar

end Productions
