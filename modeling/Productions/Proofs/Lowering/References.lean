import Productions.Proofs.Unreachable

/-! References to token rules. A token rule has a named entry in the lexical table, and references
to it are lowered to this entry wherever they stand, unless the token rule is the start rule. The
start rule is a variable, and variables are looked up first. -/
namespace Productions

namespace Rule

/-- A rule is lowered to an expression. Every terminal, name and token is replaced by a symbol that
stands for it. -/
inductive Lowers (stands : Rule → Symbol → Prop) : Rule → Expr → Prop where
  | leaf {r s} (isLeaf : r.IsLeaf) (symbol : stands r s) : Lowers stands r (.symbol s)
  | seq {rs es} (members : List.Forall₂ (Lowers stands) rs es) :
      Lowers stands (seq rs) (.makeSeq es)
  | choice {rs es} (members : List.Forall₂ (Lowers stands) rs es) :
      Lowers stands (choice rs) (.makeChoice es)
  | repeated {r e} (content : Lowers stands r e) :
      Lowers stands (repeated r .zeroOrMore) (.repeated e)
  | prec {r e} (value assoc) (content : Lowers stands r e) :
      Lowers stands (prec value assoc r) (.prec value assoc e)
  | aliased {r e} (value named) (content : Lowers stands r e) :
      Lowers stands (aliased r value named) (.aliased e value named)
  | field {r e} (name) (content : Lowers stands r e) :
      Lowers stands (field name r) (.field name e)

variable {n : Naming} {L : Lexicon} {stands : Rule → Symbol → Prop}

mutual

/-- A rule whose leaves have symbols is lowered to what lowering computes. -/
theorem lowers_lowered : (r : Rule) → r.isPlain = true →
    (∀ leaf ∈ r.leaves, ∃ s, n.symbolIn L leaf = some s ∧ stands leaf s) →
    r.Lowers stands (n.lowered L r)
  | terminal t, _, leaves | symbol name, _, leaves | token content immediate, _, leaves => by
    obtain ⟨s, found, symbol⟩ := leaves _ (List.mem_singleton_self _)
    rw [Naming.lowered, found]
    exact .leaf trivial symbol
  | seq members, plain, leaves => .seq (lowers_loweredAll members plain leaves)
  | choice members, plain, leaves => .choice (lowers_loweredAll members plain leaves)
  | repeated content .zeroOrMore, plain, leaves => .repeated (lowers_lowered content plain leaves)
  | repeated _ .oneOrMore, plain, _ | optional _, plain, _ => absurd plain (by simp [isPlain])
  | prec value assoc content, plain, leaves =>
    .prec value assoc (lowers_lowered content plain leaves)
  | aliased content value named, plain, leaves =>
    .aliased value named (lowers_lowered content plain leaves)
  | field name content, plain, leaves => .field name (lowers_lowered content plain leaves)

theorem lowers_loweredAll : (rules : List Rule) → arePlain rules = true →
    (∀ leaf ∈ leavesAll rules, ∃ s, n.symbolIn L leaf = some s ∧ stands leaf s) →
    List.Forall₂ (Lowers stands) rules (n.loweredAll L rules)
  | [], _, _ => .nil
  | r :: rs, plain, leaves => by
    rw [arePlain, Bool.and_eq_true] at plain
    apply List.Forall₂.cons
    · exact lowers_lowered r plain.1 fun leaf hl => leaves leaf (List.mem_append_left _ hl)
    · exact lowers_loweredAll rs plain.2 fun leaf hl => leaves leaf (List.mem_append_right _ hl)

end

end Rule

def Symbol.IsFor (s : Symbol) (name : String) (leaf : Rule) (found : Symbol) : Prop :=
  leaf = .symbol name ↔ found = s

namespace CompiledGrammar

variable (c : CompiledGrammar)

def HasEntry (name : String) (id : Nat) : Prop :=
  ∃ entry, c.lexicon[id]? = some entry ∧ entry.named = true ∧ entry.name = name

inductive StandsForToken (name : String) : Symbol → Prop where
  | entry {id} (apart : name ≠ c.start) (own : c.HasEntry name id) :
      StandsForToken name (.lexical id)
  | start (first : name = c.start) : StandsForToken name (.rule 0)

end CompiledGrammar

namespace Grammar

abbrev inlinedExtras (g : Grammar) : List Rule := (NormalForm.extrasRun g g.table).1

/-- A symbol stands in a compiled grammar wherever the grammar refers to a name, and nowhere else:
in the bodies of rules, where hidden rules have been written out, in extras and for the word rule.
A variable of a token rule has its own entry for a body and no references. -/
structure RefersBy (g : Grammar) (settings : Settings) (c : CompiledGrammar) (name : String)
    (s : Symbol) : Prop where
  bodies : ∀ v ∈ c.vars, v.kind ≠ .token →
    ∃ e, ((g.naming c.start).bodyOf v.name).Lowers (s.IsFor name) e
      ∧ v.body = e.resolveLevels (g.levels settings)
  tokens : ∀ v ∈ c.vars, v.kind = .token →
    ∃ id, v.body = .symbol (.lexical id) ∧ c.HasEntry v.name id
  extras : List.Forall₂ (fun extra found => extra.Lowers (s.IsFor name) (.symbol found))
    g.inlinedExtras c.extras
  word : c.word = some s ↔ g.word = some name

end Grammar

namespace Naming

variable (n : Naming) (L : Lexicon) (name : String)

inductive Finds : Symbol → Prop where
  | rule {id} (found : n.vars.get? name = some id) : Finds (.rule id)
  | entry {id} (found : L.findNamed? name = some id) : Finds (.lexical id)
  | outside {id} (found : n.externalId? name true = some id) : Finds (.external id)

variable {n L name}

theorem finds_of_nameIn {s : Symbol} (h : n.nameIn L name = some s) : n.Finds L name s := by
  rw [nameIn] at h
  cases vars : n.vars.get? name with
  | some id =>
    rw [vars] at h
    obtain rfl := Option.some.inj h
    exact .rule vars
  | none =>
    rw [vars] at h
    dsimp only at h
    split at h
    · obtain ⟨id, found, rfl⟩ := Option.map_eq_some_iff.1 h
      exact .entry found
    · cases h
    · obtain ⟨id, found, rfl⟩ := Option.map_eq_some_iff.1 h
      exact .outside found

end Naming

namespace Grammar.Compiles

open Inlining NormalForm

variable {g : Grammar} {settings : Settings} {start : String} {c : CompiledGrammar}
variable {name name' : String} {leaf : Rule} {s : Symbol}

theorem hasEntry_of_findNamed? (h : g.Compiles settings start c) {id : Nat}
    (found : (g.lexicon start).findNamed? name = some id) : c.HasEntry name id := by
  obtain ⟨entry, place, named, rfl⟩ := Lexicon.exists_of_findNamed? found
  refine ⟨Lexicon.settleEntry (g.levels settings) entry, ?_, named, rfl⟩
  rw [h.getElem?_lexicon, place, Option.map_some]

theorem get?_vars_start (h : g.Compiles settings start c) :
    (g.naming start).vars.get? start = some 0 := by
  have keyed := Symbols.keyed_resolve g
  obtain ⟨info, get⟩ := h.exists_start
  refine (get?_vars keyed start 0).2 ⟨info, ?_, keyed.name_eq get⟩
  rw [keptRules, get]
  rfl

theorem get?_vars_of_token (token : g.table.kind? name = some .token) (apart : name ≠ start) :
    (g.naming start).vars.get? name = none := by
  have keyed := Symbols.keyed_resolve g
  by_contra some
  obtain ⟨id, found⟩ := Option.ne_none_iff_exists'.1 some
  obtain ⟨info, place, rfl⟩ := (get?_vars keyed name id).1 found
  obtain ⟨get, kept⟩ := (mem_keptRules_iff keyed).1 (List.mem_of_getElem? place)
  rw [SymbolTable.kind?, get, Option.map_some, Option.some_inj] at token
  rcases kept with first | kept
  · exact apart first
  · rw [token] at kept
    cases kept

theorem exists_nameIn_of_token (h : g.Compiles settings start c)
    (token : g.table.kind? name = some .token) :
    ∃ s, (g.naming start).nameIn (g.lexicon start) name = some s ∧ c.StandsForToken name s := by
  by_cases first : name = start
  · refine ⟨.rule 0, ?_, .start (first.trans h.start_eq.symm)⟩
    rw [Naming.nameIn, first, h.get?_vars_start]
  · have keyed := Symbols.keyed_resolve g
    obtain ⟨info, get, kind⟩ := Option.map_eq_some_iff.1 token
    have entered := h.partsIn.tokens info (SymbolTable.mem_infos.2 ⟨name, get⟩) kind
    rw [keyed.name_eq get] at entered
    obtain ⟨id, found⟩ := Option.isSome_iff_exists.1 entered
    refine ⟨.lexical id, ?_, .entry (h.start_eq ▸ first) (h.hasEntry_of_findNamed? found)⟩
    have kind' : (g.naming start).table.kind? name = some .token := token
    simp only [Naming.nameIn, get?_vars_of_token token first, kind', found, Option.map_some]

/-- Different names have different symbols. -/
theorem eq_of_nameIn (first : (g.naming start).nameIn (g.lexicon start) name = some s)
    (second : (g.naming start).nameIn (g.lexicon start) name' = some s) : name = name' := by
  have keyed := Symbols.keyed_resolve g
  cases Naming.finds_of_nameIn first with
  | rule found =>
    cases Naming.finds_of_nameIn second with
    | rule found' =>
      obtain ⟨info, place, rfl⟩ := (get?_vars keyed name _).1 found
      obtain ⟨info', place', rfl⟩ := (get?_vars keyed name' _).1 found'
      obtain rfl := Option.some.inj (place.symm.trans place')
      rfl
  | entry found =>
    cases Naming.finds_of_nameIn second with
    | entry found' =>
      obtain ⟨entry, place, -, rfl⟩ := Lexicon.exists_of_findNamed? found
      obtain ⟨entry', place', -, rfl⟩ := Lexicon.exists_of_findNamed? found'
      obtain rfl := Option.some.inj (place.symm.trans place')
      rfl
  | outside found =>
    cases Naming.finds_of_nameIn second with
    | outside found' =>
      obtain ⟨token, place, -, rfl⟩ := Naming.exists_of_externalId? found
      obtain ⟨token', place', -, rfl⟩ := Naming.exists_of_externalId? found'
      obtain rfl := Option.some.inj (place.symm.trans place')
      rfl

theorem not_finds_of_findAnonymous? {content : Rule} {immediate : Bool} {id : Nat}
    (anonymous : (g.lexicon start).findAnonymous? content immediate = some id) :
    ¬ (g.naming start).Finds (g.lexicon start) name (.lexical id) := by
  intro finds
  cases finds with
  | entry found =>
    obtain ⟨entry, place, unnamed, -, -⟩ := Lexicon.exists_of_findAnonymous? anonymous
    obtain ⟨entry', place', named, -⟩ := Lexicon.exists_of_findNamed? found
    obtain rfl := Option.some.inj (place.symm.trans place')
    rw [unnamed] at named
    cases named

/-- Of all leaves only the name of a token rule has its symbol. -/
theorem isFor_of_symbolIn (stands : c.StandsForToken name s)
    (named : (g.naming start).nameIn (g.lexicon start) name = some s) {found : Symbol}
    (symbol : (g.naming start).symbolIn (g.lexicon start) leaf = some found) :
    s.IsFor name leaf found := by
  constructor
  · rintro rfl
    exact Option.some.inj (symbol.symm.trans named)
  · rintro rfl
    have finds := Naming.finds_of_nameIn named
    cases leaf with
    | symbol name' => rw [eq_of_nameIn symbol named]
    | terminal t =>
      rw [Naming.symbolIn] at symbol
      cases outside : (g.naming start).outside? t with
      | some id =>
        rw [outside] at symbol
        obtain rfl := Option.some.inj symbol
        cases stands
      | none =>
        rw [outside] at symbol
        obtain ⟨id, anonymous, rfl⟩ := Option.map_eq_some_iff.1 symbol
        exact absurd finds (not_finds_of_findAnonymous? anonymous)
    | token content immediate =>
      obtain ⟨id, anonymous, rfl⟩ := Option.map_eq_some_iff.1 symbol
      exact absurd finds (not_finds_of_findAnonymous? anonymous)
    | _ => cases symbol

/-- Every leaf of an inlined rule has a symbol. -/
theorem exists_symbolIn (h : g.Compiles settings start c) {r : Rule} {inlined : Inlined}
    (by_ : InlinedBy g.table g.expandedRules r inlined)
    (known : ∀ k ∈ r.occurrences, Symbols.Known g.table k)
    (placed : ∀ leaf ∈ inlined.rule.leaves, (g.naming start).Placed (g.lexicon start) leaf) :
    ∀ leaf ∈ inlined.rule.leaves,
      ∃ s, (g.naming start).symbolIn (g.lexicon start) leaf = some s := by
  intro leaf hl
  have references := (Symbols.known_of_references h.clean.names).1
  have visible : ∀ k ∈ leaf.occurrences, g.table.isInlined k = false := fun k hk =>
    by_.visible k (Rule.mem_occurrences_of_leaf hk _ hl)
  have known' : ∀ k ∈ leaf.occurrences, Symbols.Known g.table k := fun k hk =>
    by_.forall_occurrences references known k (Rule.mem_occurrences_of_leaf hk _ hl)
  rcases symbolIn_cases h.clean (Rule.isLeaf_of_mem_leaves _ hl) (placed leaf hl) visible known'
    with ⟨_, _, -, -, found⟩ | ⟨_, found, -⟩
  · exact ⟨_, found⟩
  · exact ⟨_, found⟩

/-- An inlined rule is lowered with the symbol of a token rule for its name alone. -/
theorem lowers_of_inlinedBy (h : g.Compiles settings start c) (stands : c.StandsForToken name s)
    (named : (g.naming start).nameIn (g.lexicon start) name = some s) {r : Rule}
    {inlined : Inlined} (by_ : InlinedBy g.table g.expandedRules r inlined)
    (known : ∀ k ∈ r.occurrences, Symbols.Known g.table k)
    (placed : ∀ leaf ∈ inlined.rule.leaves, (g.naming start).Placed (g.lexicon start) leaf) :
    inlined.rule.Lowers (s.IsFor name)
      ((g.naming start).lowered (g.lexicon start) inlined.rule) := by
  have plain : inlined.rule.isPlain = true := by
    rw [by_.rule]
    exact Rule.isPlain_canonicalize _
  apply Rule.lowers_lowered _ plain
  intro leaf hl
  obtain ⟨found, symbol⟩ := h.exists_symbolIn by_ known placed leaf hl
  exact ⟨found, symbol, isFor_of_symbolIn stands named symbol⟩

theorem lowers_body (h : g.Compiles settings start c) (stands : c.StandsForToken name s)
    (named : (g.naming start).nameIn (g.lexicon start) name = some s) {info : SymbolInfo}
    (kept : info ∈ keptRules g.table start) (kind : info.kind ≠ .token) :
    ((g.naming start).bodyOf info.name).Lowers (s.IsFor name)
      ((g.naming start).bodyIn (g.lexicon start) info) := by
  have get := get?_of_mem_keptRules (Symbols.keyed_resolve g) kept
  obtain ⟨inlined, -, bodyOf, by_⟩ := exists_bodyOf h.clean get
  have placed := placed_of_kept h.clean kept kind
  have references := (Symbols.known_of_references h.clean.names).1
  rw [Naming.bodyIn, if_neg kind]
  rw [bodyOf] at placed ⊢
  apply h.lowers_of_inlinedBy stands named by_ _ placed
  intro k hk
  exact references _ _ get k ((Rule.mem_occurrences_canonicalize _).1 hk)

theorem lowers_extras (h : g.Compiles settings start c) (stands : c.StandsForToken name s)
    (named : (g.naming start).nameIn (g.lexicon start) name = some s) :
    List.Forall₂ (fun extra found => extra.Lowers (s.IsFor name) (.symbol found))
      g.inlinedExtras c.extras := by
  have extras : c.extras = (partsRun g g.table start).1.extras := by
    rw [h.result]
    rfl
  have inlined := extras_inlined (g := g) (Symbols.keyed_resolve g)
    (quiet_extrasRun h.clean.normal)
  have references := (Symbols.known_of_references h.clean.names).2.1
  rw [extras]
  -- an inlined extra is known to come from some extra, whichever that is
  refine ((List.forall₂_and_left _ _).2 ⟨fun _ mem => mem, h.partsIn.extras⟩).imp ?_
  rintro extra found ⟨mem, lowered, placed⟩
  obtain ⟨r, listed, used, by_⟩ := exists_of_mem_forall₂ inlined.flip mem
  rw [← lowered]
  exact h.lowers_of_inlinedBy stands named by_ (references r listed) placed

theorem refersBy (h : g.Compiles settings start c) (stands : c.StandsForToken name s)
    (named : (g.naming start).nameIn (g.lexicon start) name = some s) :
    g.RefersBy settings c name s where
  bodies v mem kind := by
    obtain ⟨info, kept, sameName, sameKind, body⟩ := h.exists_of_mem_vars mem
    have lowers := h.lowers_body stands named kept (sameKind ▸ kind)
    rw [h.start_eq, sameName]
    exact ⟨_, lowers, body⟩
  tokens v mem kind := by
    obtain ⟨id, entry, body, place, own⟩ := h.arranged.tokens v mem kind
    exact ⟨id, body, entry, place, own⟩
  extras := h.lowers_extras stands named
  word := by
    rw [h.word_eq, Option.bind_eq_some_iff]
    constructor
    · rintro ⟨name', given, found⟩
      rw [given, eq_of_nameIn found named]
    · exact fun given => ⟨name, given, named⟩

end Grammar.Compiles

namespace CompiledGrammar

variable {g : Grammar} {settings : Settings} {c : CompiledGrammar} {name : String}

/-- In a compiled grammar one symbol stands for a token rule wherever it is referred to, and nowhere
else: its named entry, or the first variable if the token rule is the start rule. -/
theorem token_references (compiled : g.compile settings = .ok c)
    (token : g.table.kind? name = some .token) :
    ∃ s, c.StandsForToken name s ∧ g.RefersBy settings c name s := by
  obtain ⟨start, h⟩ := Grammar.compile_eq_ok compiled
  obtain ⟨s, named, stands⟩ := h.exists_nameIn_of_token token
  exact ⟨s, stands, h.refersBy stands named⟩

def namePairs (rules : List Definition) : Grammar where
  name := "pairs"
  rules := rules
  extras := [.symbol "name"]
  precedences := []
  conflicts := []
  externals := []
  inlined := []
  supertypes := []
  word := some "name"

def pairRule : Definition :=
  ⟨"pair", .seq [.symbol "name", .terminal (.literal ":"), .symbol "name"], false⟩

def nameRule : Definition := ⟨"name", .terminal (.literal "n"), false⟩

theorem token_references_pairs : ∃ c, (namePairs [pairRule, nameRule]).compile .default = .ok c
    ∧ (namePairs [pairRule, nameRule]).table.kind? "name" = some .token
    ∧ ∃ id, c.HasEntry "name" id
      ∧ (namePairs [pairRule, nameRule]).RefersBy .default c "name" (.lexical id) := by
  obtain ⟨c, compiled, start⟩ : ∃ c, (namePairs [pairRule, nameRule]).compile .default = .ok c
      ∧ c.start = "pair" := exists_ok_of_toOption_map (by cbv)
  have token : (namePairs [pairRule, nameRule]).table.kind? "name" = some .token := by cbv
  obtain ⟨s, stands, refers⟩ := token_references compiled token
  cases stands with
  | entry _ own => exact ⟨c, compiled, token, _, own, refers⟩
  | start first =>
    rw [start] at first
    exact absurd first (by decide)

/-- Where the token rule comes first, all references to it are to a variable. -/
theorem exists_token_variable : ∃ c, (namePairs [nameRule, pairRule]).compile .default = .ok c
    ∧ (namePairs [nameRule, pairRule]).table.kind? "name" = some .token
    ∧ c.word = some (.rule 0) ∧ c.extras = [.rule 0]
    ∧ ∃ v ∈ c.vars, v.name = "pair"
      ∧ v.body = .seq [.symbol (.rule 0), .symbol (.lexical 1), .symbol (.rule 0)] := by
  obtain ⟨c, compiled, parts⟩ : ∃ c, (namePairs [nameRule, pairRule]).compile .default = .ok c
      ∧ (c.word, c.extras, c.vars.map fun v => (v.name, v.body)) = (some (.rule 0), [.rule 0],
        [("name", .symbol (.lexical 0)),
          ("pair", .seq [.symbol (.rule 0), .symbol (.lexical 1), .symbol (.rule 0)])]) :=
    exists_ok_of_toOption_map (by cbv)
  simp only [Prod.mk.injEq] at parts
  obtain ⟨word, extras, vars⟩ := parts
  have mem : ("pair", Expr.seq [.symbol (.rule 0), .symbol (.lexical 1), .symbol (.rule 0)])
      ∈ c.vars.map fun v => (v.name, v.body) := by
    rw [vars]
    exact List.mem_cons_of_mem _ (List.mem_singleton_self _)
  obtain ⟨v, listed, same⟩ := List.mem_map.1 mem
  rw [Prod.mk.injEq] at same
  exact ⟨c, compiled, by cbv, word, extras, v, listed, same.1, same.2⟩

end CompiledGrammar

end Productions
