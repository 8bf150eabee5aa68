import Productions.Proofs.Lowering.Language
import Productions.Proofs.Stages

/-! Normalization preserves what every rule derives. Languages of variables and languages of names
are least solutions of two systems of equations, and each is compared with a solution of the other
one: what names derive solves the equations of the variables, and what variables derive, together
with the names that are no variables, solves those of the names. -/
namespace Productions

open scoped Computability

namespace NormalForm

open Inlining Lowering

variable {g : Grammar} {start : String}

theorem reference_eq {name : String} {info : SymbolInfo}
    (get : g.table.get? name = some info) :
    g.reference name = if info.kind = .token then .token info.body else .rule info.body := by
  obtain ⟨d, found, -, describes⟩ := Symbols.describes_of_get? get
  rw [Grammar.reference, found, describes.body]
  by_cases token : g.isTokenRule d = true
  · simp only
    rw [if_pos token, if_pos (describes.token.2 token)]
  · simp only
    rw [if_neg token, if_neg fun kind => token (describes.token.1 kind)]

theorem reference_of_none {name : String} (get : g.table.get? name = none) :
    g.reference name = .external := by
  rw [Grammar.reference, (Symbols.get?_eq_none_iff g name).1 get]

abbrev sourceLanguage (g : Grammar) : String → Language Letter := Rule.derivedFrom g.reference

theorem sourceLanguage_of_none {name : String}
    (get : g.table.get? name = none) :
    sourceLanguage g name = single (.external name) := by
  rw [sourceLanguage, Rule.derivedFrom_eq, reference_of_none get]
  rfl

theorem sourceLanguage_of_token {name : String} {info : SymbolInfo}
    (get : g.table.get? name = some info) (kind : info.kind = .token) :
    sourceLanguage g name = bared (info.body.language (annotated (sourceLanguage g))) := by
  rw [sourceLanguage, Rule.derivedFrom_eq, reference_eq get, if_pos kind]
  rfl

theorem sourceLanguage_of_ne_token {name : String} {info : SymbolInfo}
    (get : g.table.get? name = some info) (kind : info.kind ≠ .token) :
    sourceLanguage g name = info.body.language (annotated (sourceLanguage g)) := by
  rw [sourceLanguage, Rule.derivedFrom_eq, reference_eq get, if_neg kind]
  rfl

section Clean

variable (clean : Clean g start)

include clean

theorem expanded_of_hidden {name : String} {info : SymbolInfo}
    (get : g.table.get? name = some info) (kind : info.kind = .hidden) :
    Expanded g.table g.expandedRules name :=
  expanded_of_isInlined (Symbols.keyed_resolve g) (quiet_extrasRun clean.normal)
    (isInlined_iff.2 ⟨info, get, kind⟩)

/-- Inlining keeps the language of every body, if hidden names stand for their expansions. -/
theorem exists_bodyOf {name : String} {info : SymbolInfo}
    (get : g.table.get? name = some info) :
    ∃ inlined, (inlinedRules g.table).get? name = some inlined
      ∧ (g.naming start).bodyOf name = inlined.rule
      ∧ InlinedBy g.table g.expandedRules info.body.canonicalize inlined := by
  obtain ⟨inlined, entry, by_, -⟩ := exists_inlined (Symbols.keyed_resolve g)
    (quiet_extrasRun clean.normal) get
  exact ⟨inlined, entry, bodyOf_eq entry, by_⟩

theorem language_bodyOf {names : String → Language Letter}
    (hidden : ∀ k, g.table.isInlined k = true → Expanded g.table g.expandedRules k →
      names k = (ruleIn g.expandedRules k).language (annotated names))
    {name : String} {info : SymbolInfo} (get : g.table.get? name = some info) :
    ((g.naming start).bodyOf name).language (annotated names)
      = info.body.language (annotated names) := by
  obtain ⟨inlined, -, bodyOf, by_⟩ := exists_bodyOf clean get
  rw [bodyOf, by_.language (annotated_joinsTokens names) hidden,
    Rule.language_canonicalize (annotated_joinsTokens names)]

omit clean in
/-- In a derivation from the source, hidden names stand for their expansions. -/
theorem sourceLanguage_expanded {k : String} (hidden : g.table.isInlined k = true)
    (expanded : Expanded g.table g.expandedRules k) :
    sourceLanguage g k
      = (ruleIn g.expandedRules k).language (annotated (sourceLanguage g)) := by
  refine expanded.language (A := annotated (sourceLanguage g)) (annotated_joinsTokens _)
    (fun name info get hidden => ?_) hidden
  obtain ⟨info', get', kind⟩ := isInlined_iff.1 hidden
  obtain rfl := Option.some.inj (get'.symm.trans get)
  exact sourceLanguage_of_ne_token get (by rw [kind]; nofun)

theorem sourceLanguage_bodyOf {name : String} {info : SymbolInfo}
    (get : g.table.get? name = some info) :
    ((g.naming start).bodyOf name).language (annotated (sourceLanguage g))
      = info.body.language (annotated (sourceLanguage g)) :=
  language_bodyOf clean (fun _ hidden expanded => sourceLanguage_expanded hidden expanded) get

theorem faithful_bodies :
    TokenContent.Faithful g.table (g.naming start).bodies (sourceLanguage g) := by
  intro name lexical
  simp only [TokenContent.isLexical, SymbolTable.kind?, Bool.or_eq_true, beq_iff_eq,
    Option.map_eq_some_iff] at lexical
  obtain ⟨info, get⟩ : ∃ info, g.table.get? name = some info := by
    rcases lexical with ⟨info, get, -⟩ | ⟨info, get, -⟩ <;> exact ⟨info, get⟩
  obtain ⟨inlined, entry, bodyOf, by_⟩ := exists_bodyOf clean get
  have same := sourceLanguage_bodyOf clean get
  refine ⟨inlined.rule, by rw [get?_bodies, entry]; rfl, ?_⟩
  rw [← bodyOf, same]
  by_cases token : info.kind = .token
  · rw [sourceLanguage_of_token get token, bared_bared]
  · rw [sourceLanguage_of_ne_token get token]

theorem mem_keys_bodies {name : String} {info : SymbolInfo}
    (get : g.table.get? name = some info) : name ∈ (g.naming start).bodies.keys := by
  obtain ⟨inlined, entry, -, -⟩ := exists_bodyOf clean get
  exact OrderedMap.get?_isSome_iff.1 (by rw [get?_bodies, entry]; rfl)

theorem bared_namedContent {name : String} {info : SymbolInfo}
    (get : g.table.get? name = some info) (kind : info.kind = .token)
    (quiet : (g.naming start).namedReports name = []) :
    bared (contentLanguage ((g.naming start).namedContent name)) = sourceLanguage g name := by
  rw [sourceLanguage_of_token get kind, ← sourceLanguage_bodyOf clean get]
  refine (TokenContent.bared_contentLanguage (faithful_bodies clean) (by simp) ?_ quiet).trans ?_
  · intro k hk
    rw [List.mem_singleton.1 hk]
    exact mem_keys_bodies clean get
  · exact TokenContent.bared_language_split _

theorem bared_innerContent {content : Rule} {owner : String}
    (quiet : (g.naming start).innerReports owner content = []) :
    bared (contentLanguage ((g.naming start).innerContent content))
      = bared (content.language (annotated (sourceLanguage g))) :=
  TokenContent.bared_contentLanguage (faithful_bodies clean) (by simp) (by simp) quiet

omit clean in
theorem language_lexical {vars : ℕ → Language Letter} {id : Nat} {entry : LexicalEntry}
    (found : (g.lexicon start).entries[id]? = some entry) :
    (g.normalForm start).numbering.language vars (.lexical id)
      = bared (contentLanguage entry.content) := by
  have lookup : (g.normalForm start).numbering.contents[id]? = some entry.content := by
    simp only [numbering, List.getElem?_map]
    rw [show (g.normalForm start).lexicon = (g.lexicon start).entries from rfl, found]
    rfl
  ext w
  constructor
  · rintro ⟨content, lookup', hw⟩
    obtain rfl := Option.some.inj (lookup'.symm.trans lookup)
    exact hw
  · exact fun hw => ⟨_, lookup, hw⟩

omit clean in
theorem language_external {vars : ℕ → Language Letter} {id : Nat} {token : ExternalToken}
    (found : (g.naming start).externals[id]? = some token) :
    (g.normalForm start).numbering.language vars (.external id) = single token.letter := by
  have lookup : (g.normalForm start).numbering.externals[id]? = some token := found
  ext w
  constructor
  · rintro ⟨other, lookup', rfl⟩
    obtain rfl := Option.some.inj (lookup'.symm.trans lookup)
    rfl
  · rintro rfl
    exact ⟨_, lookup, rfl⟩

omit clean in
theorem exists_externalId? {name : String} (get : g.table.get? name = none)
    (known : Symbols.Known g.table name) :
    ∃ id, (g.naming start).externalId? name true = some id := by
  have external : name ∈ g.externals.filterMap Symbols.externalName? := by
    rcases known with known | known
    · obtain ⟨info, get'⟩ := SymbolTable.contains_iff.1 known
      rw [get] at get'
      cases get'
    · exact OrderedSet.mem_ofList.1 (OrderedSet.contains_iff.1 known)
  obtain ⟨r, mem, found⟩ := List.mem_filterMap.1 external
  refine Option.isSome_iff_exists.1 (Naming.isSome_externalId? ?_)
  refine List.mem_filterMap.2 ⟨r, mem, ?_⟩
  cases r <;> simp_all [Symbols.externalName?, ExternalToken.ofRule?]

/-- The symbol of a leaf is that of a variable, or derives what the leaf derives. -/
theorem symbolIn_cases {leaf : Rule} (isLeaf : leaf.IsLeaf)
    (placed : (g.naming start).Placed (g.lexicon start) leaf)
    (visible : ∀ k ∈ leaf.occurrences, g.table.isInlined k = false)
    (known : ∀ k ∈ leaf.occurrences, Symbols.Known g.table k) :
    (∃ name id, leaf = .symbol name ∧ (g.naming start).vars.get? name = some id
        ∧ (g.naming start).symbolIn (g.lexicon start) leaf = some (.rule id))
      ∨ ∃ symbol, (g.naming start).symbolIn (g.lexicon start) leaf = some symbol
        ∧ ∀ vars, (g.normalForm start).numbering.language vars symbol
          = leaf.language (annotated (sourceLanguage g)) := by
  have entered := entered_lexiconOf (Symbols.keyed_resolve g) clean.normal
  cases leaf with
  | terminal t =>
    obtain ⟨symbol, found⟩ := Option.isSome_iff_exists.1 placed
    refine .inr ⟨symbol, found, fun vars => ?_⟩
    rw [Naming.symbolIn] at found
    cases outside : (g.naming start).outside? t with
    | some id =>
      rw [outside] at found
      obtain rfl := Option.some.inj found
      cases t with
      | pattern value flags => cases outside
      | literal text =>
        obtain ⟨token, entry, named, rfl⟩ := Naming.exists_of_externalId? outside
        rw [language_external entry, ExternalToken.letter, named]
        rfl
    | none =>
      rw [outside] at found
      obtain ⟨id, anonymous, rfl⟩ := Option.map_eq_some_iff.1 found
      obtain ⟨entry, lookup, -, content, -⟩ := Lexicon.exists_of_findAnonymous? anonymous
      rw [language_lexical lookup, content, contentLanguage_eq]
      exact bared_single rfl
  | token content immediate =>
    obtain ⟨isSome, owner, quiet⟩ := placed
    obtain ⟨symbol, found⟩ := Option.isSome_iff_exists.1 isSome
    refine .inr ⟨symbol, found, fun vars => ?_⟩
    obtain ⟨id, anonymous, rfl⟩ := Option.map_eq_some_iff.1 found
    obtain ⟨entry, lookup, -, same, -⟩ := Lexicon.exists_of_findAnonymous? anonymous
    rw [language_lexical lookup, same, bared_innerContent clean quiet]
    rfl
  | symbol name =>
    have hidden := visible name (by simp [Rule.occurrences])
    simp only [Naming.symbolIn, Naming.nameIn]
    cases vars : (g.naming start).vars.get? name with
    | some id => exact .inl ⟨name, id, rfl, vars, rfl⟩
    | none =>
      refine .inr ?_
      cases get : g.table.get? name with
      | none =>
        obtain ⟨id, external⟩ : ∃ id, (g.naming start).externalId? name true = some id :=
          exists_externalId? get (known name (by simp [Rule.occurrences]))
        have kind : (g.naming start).table.kind? name = none := by
          simp only [namingOf, SymbolTable.kind?, get, Option.map_none]
        refine ⟨.external id, by rw [kind, external]; rfl, fun vars => ?_⟩
        obtain ⟨token, entry, named, rfl⟩ := Naming.exists_of_externalId? external
        rw [language_external entry, ExternalToken.letter, named]
        exact (sourceLanguage_of_none get).symm
      | some info =>
        have kind : (g.naming start).table.kind? name = some info.kind := by
          simp only [namingOf, SymbolTable.kind?, get, Option.map_some]
        by_cases token : info.kind = .token
        · rw [token] at kind
          obtain ⟨id, found⟩ := Option.isSome_iff_exists.1 (placed vars kind)
          refine ⟨.lexical id, by rw [kind, found]; rfl, fun vars => ?_⟩
          obtain ⟨entry, lookup, named, rfl⟩ := Lexicon.exists_of_findNamed? found
          obtain ⟨-, content, -, quiet⟩ := entered.named entry (List.mem_of_getElem? lookup) named
          rw [language_lexical lookup, content, bared_namedContent clean get token quiet]
          rfl
        · have kept : isKept info.kind = true := by
            cases which : info.kind with
            | nonterminal | lexical | supertype => rfl
            | token => exact absurd which token
            | hidden =>
              rw [isInlined_iff.2 ⟨info, get, which⟩] at hidden
              cases hidden
          obtain ⟨id, some⟩ : ∃ id, (g.naming start).vars.get? name = some id :=
            exists_of_isKept (Symbols.keyed_resolve g) get kept
          rw [some] at vars
          cases vars
  | _ => cases isLeaf

omit clean in
theorem bodies_eq (clean : Clean g start) : (g.normalForm start).numbering.bodies
    = (keptRules g.table start).map ((g.naming start).bodyIn (g.lexicon start)) := by
  have parts := partsIn_partsRun (Symbols.keyed_resolve g) clean.normal
  have vars : (g.normalForm start).vars = _ := parts.vars
  rw [numbering, bodies, vars, List.map_map]
  rfl

theorem exists_of_body {i : ℕ} {body : Expr}
    (lookup : (g.normalForm start).numbering.bodies[i]? = some body) :
    ∃ info, (keptRules g.table start)[i]? = some info ∧ g.table.get? info.name = some info
      ∧ body = (g.naming start).bodyIn (g.lexicon start) info := by
  rw [bodies_eq clean, List.getElem?_map, Option.map_eq_some_iff] at lookup
  obtain ⟨info, kept, rfl⟩ := lookup
  exact ⟨info, kept, get?_of_mem_keptRules (Symbols.keyed_resolve g) (List.mem_of_getElem? kept),
    rfl⟩

/-- The body of a token rule that is a variable is its own entry. -/
theorem language_bodyIn_of_token {info : SymbolInfo} (mem : info ∈ keptRules g.table start)
    (kind : info.kind = .token) (vars : ℕ → Language Letter) :
    ((g.naming start).bodyIn (g.lexicon start) info).language
      ((g.normalForm start).numbering.language vars) enclosed = sourceLanguage g info.name := by
  have keyed := Symbols.keyed_resolve g
  have placed := (partsIn_partsRun keyed clean.normal).bodies info mem
  have entered := entered_lexiconOf keyed clean.normal
  have get := get?_of_mem_keptRules keyed mem
  rw [Naming.BodyPlaced, if_pos kind] at placed
  obtain ⟨id, found⟩ := Option.isSome_iff_exists.1 placed
  obtain ⟨entry, lookup, named, name⟩ := Lexicon.exists_of_findNamed? found
  obtain ⟨-, content, -, quiet⟩ := entered.named entry (List.mem_of_getElem? lookup) named
  rw [name] at content quiet
  rw [Naming.bodyIn, if_pos kind, found]
  exact (language_lexical lookup).trans (by rw [content, bared_namedContent clean get kind quiet])

theorem placed_of_kept {info : SymbolInfo} (mem : info ∈ keptRules g.table start)
    (kind : info.kind ≠ .token) : ∀ leaf ∈ ((g.naming start).bodyOf info.name).leaves,
      (g.naming start).Placed (g.lexicon start) leaf := by
  have placed := (partsIn_partsRun (Symbols.keyed_resolve g) clean.normal).bodies info mem
  rwa [Naming.BodyPlaced, if_neg kind] at placed

theorem leaf_cases {name : String} {info : SymbolInfo} (get : g.table.get? name = some info)
    (placed : ∀ leaf ∈ ((g.naming start).bodyOf name).leaves,
      (g.naming start).Placed (g.lexicon start) leaf) {leaf : Rule}
    (hl : leaf ∈ ((g.naming start).bodyOf name).leaves) :
    (∃ name id, leaf = .symbol name ∧ (g.naming start).vars.get? name = some id
        ∧ g.table.isInlined name = false
        ∧ (g.naming start).symbolIn (g.lexicon start) leaf = some (.rule id))
      ∨ ∃ symbol, (g.naming start).symbolIn (g.lexicon start) leaf = some symbol
        ∧ ∀ vars, (g.normalForm start).numbering.language vars symbol
          = leaf.language (annotated (sourceLanguage g)) := by
  obtain ⟨inlined, -, bodyOf, by_⟩ := exists_bodyOf clean get
  have references := (Symbols.known_of_references clean.names).1
  have visible : ∀ k ∈ leaf.occurrences, g.table.isInlined k = false := fun k hk =>
    by_.visible k (bodyOf ▸ Rule.mem_occurrences_of_leaf hk _ hl)
  have known : ∀ k ∈ leaf.occurrences, Symbols.Known g.table k := fun k hk =>
    by_.forall_occurrences references (fun j hj => references _ _ get j
      ((Rule.mem_occurrences_canonicalize _).1 hj)) k
      (bodyOf ▸ Rule.mem_occurrences_of_leaf hk _ hl)
  rcases symbolIn_cases clean (Rule.isLeaf_of_mem_leaves _ hl) (placed leaf hl) visible known
    with ⟨name, id, rfl, vars, found⟩ | right
  · exact .inl ⟨name, id, rfl, vars, visible name (by simp [Rule.occurrences]), found⟩
  · exact .inr right

def keptLanguage (g : Grammar) (start : String) (i : ℕ) : Language Letter :=
  {w | ∃ info, (keptRules g.table start)[i]? = some info ∧ w ∈ sourceLanguage g info.name}

omit clean in
theorem keptLanguage_eq {i : ℕ} {info : SymbolInfo}
    (kept : (keptRules g.table start)[i]? = some info) :
    keptLanguage g start i = sourceLanguage g info.name := by
  ext w
  constructor
  · rintro ⟨other, kept', hw⟩
    obtain rfl := Option.some.inj (kept'.symm.trans kept)
    exact hw
  · exact fun hw => ⟨info, kept, hw⟩

omit clean in
theorem keptLanguage_of_vars {name : String} {id : ℕ}
    (vars : (g.naming start).vars.get? name = some id) :
    keptLanguage g start id = sourceLanguage g name := by
  obtain ⟨info, kept, rfl⟩ := (get?_vars (Symbols.keyed_resolve g) name id).1 vars
  exact keptLanguage_eq kept

/-- What the rules derive in the source solves the equations of the variables. -/
theorem language_body_le {i : ℕ} {body : Expr}
    (lookup : (g.normalForm start).numbering.bodies[i]? = some body) :
    body.language ((g.normalForm start).numbering.language (keptLanguage g start)) enclosed
      ≤ keptLanguage g start i := by
  obtain ⟨info, kept, get, rfl⟩ := exists_of_body clean lookup
  have mem := List.mem_of_getElem? kept
  rw [keptLanguage_eq kept]
  by_cases kind : info.kind = .token
  · rw [language_bodyIn_of_token clean mem kind]
  · have plain : (g.naming start).Plain :=
      plain_namingOf (Symbols.keyed_resolve g) (quiet_extrasRun clean.normal)
    rw [sourceLanguage_of_ne_token get kind, ← sourceLanguage_bodyOf clean get, Naming.bodyIn,
      if_neg kind]
    refine language_lowered (A := annotated (sourceLanguage g)) respected_ge _ (plain info.name)
      fun leaf hl => ?_
    rcases leaf_cases clean get (placed_of_kept clean mem kind) hl
      with ⟨name, id, rfl, vars, -, found⟩ | ⟨symbol, found, same⟩
    · exact ⟨_, found, (keptLanguage_of_vars vars).le⟩
    · exact ⟨_, found, (same _).le⟩

abbrev compiledLanguage (g : Grammar) (start : String) (i : ℕ) : Language Letter :=
  Expr.derivedFrom (g.normalForm start).numbering (.rule i)

theorem compiledLanguage_le (i : ℕ) : compiledLanguage g start i ≤ keptLanguage g start i :=
  fun _ h => Expr.Derives.mem_language (fun _ _ lookup => language_body_le clean lookup) h

/-- The names that are variables derive what the variables do, the other ones what they derive in
the source. -/
def visibleLanguage (g : Grammar) (start : String) (name : String) : Language Letter :=
  ((g.naming start).vars.get? name).elim (sourceLanguage g name) (compiledLanguage g start)

def nameLanguage (g : Grammar) (start : String) (name : String) : Language Letter :=
  if g.table.isInlined name then
    (ruleIn g.expandedRules name).language (annotated (visibleLanguage g start))
  else visibleLanguage g start name

omit clean in
theorem visibleLanguage_of_vars {name : String} {id : ℕ}
    (vars : (g.naming start).vars.get? name = some id) :
    visibleLanguage g start name = compiledLanguage g start id := by
  rw [visibleLanguage, vars]
  rfl

omit clean in
theorem nameLanguage_of_visible {name : String} (visible : g.table.isInlined name = false) :
    nameLanguage g start name = visibleLanguage g start name := by
  rw [nameLanguage, visible]
  rfl

theorem visibleLanguage_le (name : String) :
    visibleLanguage g start name ≤ sourceLanguage g name := by
  unfold visibleLanguage
  cases vars : (g.naming start).vars.get? name with
  | none => exact le_rfl
  | some id => exact (compiledLanguage_le clean id).trans (keptLanguage_of_vars vars).le

omit clean in
/-- An expansion refers to no hidden name. -/
theorem nameLanguage_of_expanded (start : String) {name : String} (hidden : g.table.isInlined name = true)
    (expanded : Expanded g.table g.expandedRules name) :
    nameLanguage g start name
      = (ruleIn g.expandedRules name).language (annotated (nameLanguage g start)) := by
  rw [nameLanguage, if_pos hidden]
  exact Rule.language_congr _ fun k hk => (nameLanguage_of_visible (expanded.visible k hk)).symm

theorem nameLanguage_le (name : String) : nameLanguage g start name ≤ sourceLanguage g name := by
  by_cases hidden : g.table.isInlined name = true
  · obtain ⟨info, get, kind⟩ := isInlined_iff.1 hidden
    have expanded := expanded_of_hidden clean get kind
    rw [sourceLanguage_expanded hidden expanded, nameLanguage, if_pos hidden]
    exact Rule.language_mono (visibleLanguage_le clean) _
  · rw [nameLanguage_of_visible (by simpa using hidden)]
    exact visibleLanguage_le clean name

/-- A variable derives what its inlined body derives. -/
theorem language_bodyOf_le {i : ℕ} {info : SymbolInfo}
    (kept : (keptRules g.table start)[i]? = some info) (kind : info.kind ≠ .token) :
    ((g.naming start).bodyOf info.name).language (annotated (nameLanguage g start))
      ≤ compiledLanguage g start i := by
  have mem := List.mem_of_getElem? kept
  have plain : (g.naming start).Plain :=
    plain_namingOf (Symbols.keyed_resolve g) (quiet_extrasRun clean.normal)
  have lookup : (g.normalForm start).numbering.bodies[i]?
      = some ((g.naming start).bodyIn (g.lexicon start) info) := by
    rw [bodies_eq clean, List.getElem?_map, kept]
    rfl
  have body : compiledLanguage g start i
      = ((g.naming start).bodyIn (g.lexicon start) info).language
        (Expr.derivedFrom (g.normalForm start).numbering) enclosed := by
    ext w
    exact (Expr.derives_rule_iff lookup).trans Expr.derives_iff_mem
  rw [body, Naming.bodyIn, if_neg kind]
  refine language_lowered (A := annotated (nameLanguage g start)) respected_le _ (plain info.name)
    fun leaf hl => ?_
  have get := get?_of_mem_keptRules (Symbols.keyed_resolve g) mem
  rcases leaf_cases clean get (placed_of_kept clean mem kind) hl
    with ⟨name, id, rfl, vars, visible, found⟩ | ⟨symbol, found, same⟩
  · exact ⟨_, found, ((nameLanguage_of_visible visible).trans (visibleLanguage_of_vars vars)).le⟩
  · refine ⟨_, found, ?_⟩
    rw [Expr.derivedFrom_eq, same]
    exact Rule.language_mono (nameLanguage_le clean) _

theorem compiledLanguage_of_token {i : ℕ} {info : SymbolInfo}
    (kept : (keptRules g.table start)[i]? = some info) (kind : info.kind = .token) :
    compiledLanguage g start i = sourceLanguage g info.name := by
  have lookup : (g.normalForm start).numbering.bodies[i]?
      = some ((g.naming start).bodyIn (g.lexicon start) info) := by
    rw [bodies_eq clean, List.getElem?_map, kept]
    rfl
  rw [← language_bodyIn_of_token clean (List.mem_of_getElem? kept) kind]
  ext w
  refine (Expr.derives_rule_iff lookup).trans (Expr.derives_iff_mem.trans ?_)
  rw [show Expr.derivedFrom (g.normalForm start).numbering = _ from funext Expr.derivedFrom_eq]

/-- The languages of names solve the equations of the names. -/
theorem language_reference_le (name : String) :
    (g.reference name).language (nameLanguage g start) name ≤ nameLanguage g start name := by
  cases get : g.table.get? name with
  | none =>
    have visible : g.table.isInlined name = false := by
      simp [SymbolTable.isInlined, SymbolTable.kind?, get]
    have novar : (g.naming start).vars.get? name = none := by
      cases vars : (g.naming start).vars.get? name with
      | none => rfl
      | some id =>
        obtain ⟨info, kept, rfl⟩ := (get?_vars (Symbols.keyed_resolve g) name id).1 vars
        rw [get?_of_mem_keptRules (Symbols.keyed_resolve g) (List.mem_of_getElem? kept)] at get
        cases get
    rw [reference_of_none get, nameLanguage_of_visible visible, visibleLanguage, novar]
    exact (sourceLanguage_of_none get).ge
  | some info =>
    rw [reference_eq get]
    by_cases token : info.kind = .token
    · have visible : g.table.isInlined name = false := by
        simp [SymbolTable.isInlined, SymbolTable.kind?, get, token]
      have source : nameLanguage g start name = sourceLanguage g name := by
        rw [nameLanguage_of_visible visible, visibleLanguage]
        cases vars : (g.naming start).vars.get? name with
        | none => rfl
        | some id =>
          obtain ⟨other, kept, rfl⟩ := (get?_vars (Symbols.keyed_resolve g) name id).1 vars
          have get' := get?_of_mem_keptRules (Symbols.keyed_resolve g) (List.mem_of_getElem? kept)
          obtain rfl := Option.some.inj (get'.symm.trans get)
          exact compiledLanguage_of_token clean kept token
      rw [if_pos token, source, sourceLanguage_of_token get token]
      exact bared_mono (Rule.language_mono (nameLanguage_le clean) _)
    · rw [if_neg token]
      have inlined := language_bodyOf clean
        (fun _ hidden expanded => nameLanguage_of_expanded start hidden expanded) get
      refine inlined.symm.le.trans ?_
      by_cases hidden : info.kind = .hidden
      · have isInlined := isInlined_iff.2 ⟨info, get, hidden⟩
        obtain ⟨other, entry, by_, expansion⟩ := exists_inlined (Symbols.keyed_resolve g)
          (quiet_extrasRun clean.normal) get
        rw [nameLanguage_of_expanded start isInlined (expanded_of_hidden clean get hidden),
          ruleIn_eq (expansion isInlined), bodyOf_eq entry]
      · have kept : isKept info.kind = true := by
          cases which : info.kind with
          | nonterminal | lexical | supertype => rfl
          | token => exact absurd which token
          | hidden => exact absurd which hidden
        have visible : g.table.isInlined name = false := by
          simp [SymbolTable.isInlined, SymbolTable.kind?, get, hidden]
        obtain ⟨id, vars⟩ : ∃ id, (g.naming start).vars.get? name = some id :=
          exists_of_isKept (Symbols.keyed_resolve g) get kept
        rw [nameLanguage_of_visible visible, visibleLanguage_of_vars vars]
        obtain ⟨other, place, rfl⟩ := (get?_vars (Symbols.keyed_resolve g) name id).1 vars
        have get' := get?_of_mem_keptRules (Symbols.keyed_resolve g) (List.mem_of_getElem? place)
        obtain rfl := Option.some.inj (get'.symm.trans get)
        exact language_bodyOf_le clean place token

theorem sourceLanguage_le (name : String) : sourceLanguage g name ≤ nameLanguage g start name :=
  fun _ h => Rule.Derives.mem_language (language_reference_le clean) h

/-- A variable derives what its rule derives. -/
theorem compiledLanguage_eq {i : ℕ} {info : SymbolInfo}
    (kept : (keptRules g.table start)[i]? = some info) :
    compiledLanguage g start i = sourceLanguage g info.name := by
  refine le_antisymm ((compiledLanguage_le clean i).trans (keptLanguage_eq kept).le) ?_
  by_cases kind : info.kind = .token
  · exact (compiledLanguage_of_token clean kept kind).ge
  · have get := get?_of_mem_keptRules (Symbols.keyed_resolve g) (List.mem_of_getElem? kept)
    rw [sourceLanguage_of_ne_token get kind]
    refine (Rule.language_mono (sourceLanguage_le clean) _).trans ?_
    rw [← language_bodyOf clean (fun _ hidden expanded =>
      nameLanguage_of_expanded start hidden expanded) get]
    exact language_bodyOf_le clean kept kind

/-- A part of an inlined body derives, once it has been lowered, what it derives in the source. -/
theorem language_lowered_eq {name : String} {info : SymbolInfo}
    (get : g.table.get? name = some info)
    (placed : ∀ leaf ∈ ((g.naming start).bodyOf name).leaves,
      (g.naming start).Placed (g.lexicon start) leaf) {part : Rule} (plain : part.isPlain = true)
    (leaves : ∀ leaf ∈ part.leaves, leaf ∈ ((g.naming start).bodyOf name).leaves) :
    part.language (annotated (sourceLanguage g))
      = ((g.naming start).lowered (g.lexicon start) part).language
        (Expr.derivedFrom (g.normalForm start).numbering) enclosed := by
  refine language_lowered (A := annotated (sourceLanguage g)) (respected_eq _) part plain
    fun leaf hl => ?_
  rcases leaf_cases clean get placed (leaves leaf hl)
    with ⟨name, id, rfl, vars, -, found⟩ | ⟨symbol, found, same⟩
  · obtain ⟨info, kept, rfl⟩ := (get?_vars (Symbols.keyed_resolve g) name id).1 vars
    exact ⟨_, found, (compiledLanguage_eq clean kept).symm⟩
  · refine ⟨_, found, ?_⟩
    rw [Expr.derivedFrom_eq, same]

end Clean

variable {g : Grammar} {settings : Settings} {r : Resolved} {n : Normalized}

/-- Every variable of a normal form derives what the rule of its name derives in the grammar. -/
theorem derives_body_iff (resolved : g.resolve settings = .ok r) (normalized : r.normalize = .ok n)
    {v : Variable} (mem : v ∈ n.normal.vars) (w : List Letter) :
    Expr.Derives n.normal.numbering v.body w ↔ g.Derives (.symbol v.name) w := by
  obtain ⟨clean, rfl⟩ := Resolved.normalize_eq_ok resolved normalized
  obtain ⟨i, found⟩ := List.getElem?_of_mem mem
  have vars : (g.normalForm r.start).vars = _ :=
    (partsIn_partsRun (Symbols.keyed_resolve g) clean.normal).vars
  have lookup : (g.normalForm r.start).numbering.bodies[i]? = some v.body := by
    simp only [numbering, bodies, List.getElem?_map, found, Option.map_some]
  rw [vars, List.getElem?_map, Option.map_eq_some_iff] at found
  obtain ⟨info, kept, rfl⟩ := found
  rw [← Expr.derives_rule_iff lookup]
  exact Set.ext_iff.1 (compiledLanguage_eq clean kept) w

/-- Sums of a token and an external token, through a hidden rule. -/
def sums : Grammar where
  name := "sums"
  rules := [
    ⟨"sum", .seq [.symbol "_term", .repeated (.seq [.terminal (.literal "+"), .symbol "_term"])
      .zeroOrMore], false⟩,
    ⟨"_term", .choice [.field "value" (.symbol "one"), .symbol "gap"], true⟩,
    ⟨"one", .token (.field "digit" (.terminal (.literal "1"))) false, false⟩]
  extras := []
  precedences := []
  conflicts := []
  externals := [.symbol "gap"]
  inlined := []
  supertypes := []
  word := none

theorem sums_derives : sums.Derives (.symbol "sum")
    [.opening (.field "value"), .terminal (.literal "1"), .closing (.field "value"),
      .terminal (.literal "+"), .external "gap"] := by
  have one : sums.Derives (.symbol "one") [.terminal (.literal "1")] :=
    .tokenRule rfl (.token (.field (.terminal _)))
  have value : sums.Derives (.symbol "_term") (Letter.enclose (.field "value")
      [.terminal (.literal "1")]) := .rule rfl (.choice (by simp) (.field one))
  have gap : sums.Derives (.symbol "_term") [.external "gap"] :=
    .rule rfl (.choice (r := .symbol "gap") (by simp) (.external rfl))
  have more : sums.Derives (.repeated (.seq [.terminal (.literal "+"), .symbol "_term"])
      .zeroOrMore) [.terminal (.literal "+"), .external "gap"] :=
    .repeatCons (.seqCons (.terminal _) (.seqCons gap .seqNil)) .repeatNil
  exact .rule rfl (.seqCons value (.seqCons more .seqNil))

theorem derives_body_iff_sums : ∃ r n v, sums.resolve .default = .ok r ∧ r.normalize = .ok n
    ∧ v ∈ n.normal.vars ∧ v.name = "sum"
    ∧ Expr.Derives n.normal.numbering v.body
      [.opening (.field "value"), .terminal (.literal "1"), .closing (.field "value"),
        .terminal (.literal "+"), .external "gap"] := by
  have names : (sums.resolve .default >>= Resolved.normalize).toOption.map
      (fun n => n.normal.vars.map Variable.name) = some ["sum"] := by cbv
  cases resolved : sums.resolve .default with
  | error f => simp [resolved, bind, Except.bind, Except.toOption] at names
  | ok r =>
    cases normalized : r.normalize with
    | error f => simp [resolved, normalized, bind, Except.bind, Except.toOption] at names
    | ok n =>
      simp only [resolved, normalized, bind, Except.bind, Except.toOption, Option.map_some,
        Option.some.injEq] at names
      obtain ⟨v, vars, name⟩ := List.map_eq_singleton_iff.1 names
      have mem : v ∈ n.normal.vars := by simp [vars]
      refine ⟨r, n, v, rfl, normalized, mem, name, ?_⟩
      exact (derives_body_iff resolved normalized mem _).2 (name ▸ sums_derives)

end NormalForm

end Productions
