import Productions.Compiled.Source
import Productions.Proofs.Lowering.Closed
import Productions.Proofs.Normal.Preservation
import Productions.Proofs.Recompilation.Replay

/-! The arrangement of a compiled grammar. Its names tell its variables, its named entries and its
external tokens apart, and every symbol in it can be told by a name or a content. -/
namespace Productions

def LexicalEntry.Namesakes (e f : LexicalEntry) : Prop :=
  e.named = true ∧ f.named = true ∧ e.name = f.name

namespace Lexicon

variable {R : List LexicalEntry} {L : Lexicon} {entry : LexicalEntry} {id : Nat}

def NamedOnce (R : List LexicalEntry) : Prop := R.Pairwise fun e f => ¬ e.Namesakes f

theorem NamedOnce.eq_of_namesakes (h : NamedOnce R) {i j : Nat} {e f : LexicalEntry}
    (first : R[i]? = some e) (second : R[j]? = some f) (namesakes : e.Namesakes f) : i = j :=
  eq_of_pairwise (fun ⟨a, b, c⟩ => ⟨b, a, c.symm⟩) h first second namesakes

theorem namedOnce_append (h : NamedOnce R)
    (new : ∀ e ∈ R, ¬ e.Namesakes entry) : NamedOnce (R ++ [entry]) := by
  refine List.pairwise_append.2 ⟨h, List.pairwise_singleton _ _, fun e he f hf => ?_⟩
  rw [List.mem_singleton.1 hf]
  exact new e he

theorem findNamed?_of_namedOnce (h : NamedOnce L.entries) (stands : L.entries[id]? = some entry)
    (named : entry.named = true) : L.findNamed? entry.name = some id := by
  obtain ⟨place, found⟩ :=
    Option.isSome_iff_exists.1 (isSome_findNamed? (List.mem_of_getElem? stands) named)
  obtain ⟨other, there, named', name⟩ := exists_of_findNamed? found
  rw [found, h.eq_of_namesakes there stands ⟨named', named, name⟩]

theorem findAnonymous?_of_distinct (h : Distinct L.entries)
    (stands : L.entries[id]? = some entry) (unnamed : entry.named = false) :
    L.findAnonymous? entry.content entry.immediate = some id := by
  obtain ⟨place, found⟩ :=
    Option.isSome_iff_exists.1 (isSome_findAnonymous? (List.mem_of_getElem? stands) unnamed)
  obtain ⟨other, there, unnamed', content, flag⟩ := exists_of_findAnonymous? found
  rw [found, h.eq_of_alike there stands ⟨unnamed', unnamed, content, flag⟩]

end Lexicon

namespace Lowering

variable {n : Naming} {s s' : Lowering}

theorem namedOnce_internAnonymous {L : Lexicon} (h : Lexicon.NamedOnce L.entries) (content : Rule)
    (immediate : Bool) (owner : String) :
    Lexicon.NamedOnce (L.internAnonymous content immediate owner).2.entries := by
  rcases Lexicon.internAnonymous_cases L content immediate owner
    with ⟨id, -, same⟩ | ⟨-, -, name, added⟩
  · rw [same]
    exact h
  · rw [added]
    exact Lexicon.namedOnce_append h fun e _ namesakes => nomatch namesakes.2.1

theorem Step.namedOnce (h : Step n s s') (once : Lexicon.NamedOnce s.lexicon.entries) :
    Lexicon.NamedOnce s'.lexicon.entries := by
  cases h with
  | terminal | token => exact namedOnce_internAnonymous once _ _ _
  | named name kind new =>
    rw [Lexicon.internNamed_of_new new]
    refine Lexicon.namedOnce_append once ?_
    rintro e he ⟨named, -, same⟩
    exact Lexicon.findNamed?_eq_none_iff.1 new e he named same
  | report => exact once

theorem Steps.namedOnce (h : Steps n s s') (once : Lexicon.NamedOnce s.lexicon.entries) :
    Lexicon.NamedOnce s'.lexicon.entries := by
  induction h with
  | refl => exact once
  | tail _ step ih => exact step.namedOnce ih

end Lowering

namespace Naming

variable {n : Naming} {L : Lexicon} {s : Symbol}

mutual

/-- Every symbol of a lowered rule is that of a leaf. -/
theorem exists_leaf_of_mem_symbols : (r : Rule) → s ∈ (n.lowered L r).symbols →
    ∃ leaf ∈ r.leaves, n.symbolIn L leaf = some s
  | .terminal t, h | .symbol name, h | .token content immediate, h => by
    refine ⟨_, List.mem_singleton_self _, ?_⟩
    rw [lowered] at h
    generalize n.symbolIn L _ = found at h ⊢
    cases found with
    | none => cases h
    | some symbol => rw [List.mem_singleton.1 h]
  | .seq members, h => by
    rw [lowered, Expr.symbols_makeSeq] at h
    exact exists_leaf_of_mem_symbolsAll members h
  | .choice members, h => by
    rw [lowered, Expr.mem_symbols_makeChoice] at h
    exact exists_leaf_of_mem_symbolsAll members h
  | .repeated content _, h | .optional content, h | .prec _ _ content, h | .aliased content _ _, h
  | .field _ content, h => exists_leaf_of_mem_symbols content h

theorem exists_leaf_of_mem_symbolsAll : (rules : List Rule) →
    s ∈ Expr.symbolsAll (n.loweredAll L rules) →
    ∃ leaf ∈ Rule.leavesAll rules, n.symbolIn L leaf = some s
  | [], h => absurd h (by simp [loweredAll, Expr.symbolsAll])
  | r :: rs, h => by
    rw [loweredAll, Expr.symbolsAll, List.mem_append] at h
    simp only [Rule.leavesAll, List.mem_append]
    rcases h with h | h
    · obtain ⟨leaf, hl, found⟩ := exists_leaf_of_mem_symbols r h
      exact ⟨leaf, .inl hl, found⟩
    · obtain ⟨leaf, hl, found⟩ := exists_leaf_of_mem_symbolsAll rs h
      exact ⟨leaf, .inr hl, found⟩

end

theorem externalId?_congr {n m : Naming} (same : n.externals = m.externals) (name : String)
    (named : Bool) : n.externalId? name named = m.externalId? name named := by
  rw [externalId?, externalId?, same]

end Naming

namespace CompiledGrammar

variable (c : CompiledGrammar)

inductive Stands : Symbol → Prop where
  | rule {id v} (found : c.vars[id]? = some v) (visible : v.isHidden = false) : Stands (.rule id)
  | named {id entry} (found : c.lexicon[id]? = some entry) (named : entry.named = true)
      (apart : ∀ v ∈ c.vars, v.name ≠ entry.name) : Stands (.lexical id)
  | anonymous {id entry} (found : c.lexicon[id]? = some entry) (unnamed : entry.named = false) :
      Stands (.lexical id)
  | outside {id token} (found : c.externals[id]? = some token)
      (last : ∀ n : Naming, n.externals = c.externals →
        n.externalId? token.name token.named = some id)
      (apart : token.named = true → (∀ v ∈ c.vars, v.name ≠ token.name)
        ∧ ∀ entry ∈ c.lexicon, entry.named = true → entry.name ≠ token.name) :
      Stands (.external id)

/-- What compilation makes sure of: only the start rule may be a token rule, whose body is its own
entry, or hidden. -/
structure Arranged : Prop where
  starts : ∃ v, c.vars.head? = some v ∧ v.name = c.start
  names : (c.vars.map Variable.name).Nodup
  kept : ∀ v ∈ c.vars.tail, NormalForm.isKept v.kind = true
  bodies : ∀ v ∈ c.vars, v.kind ≠ .token → ∀ s ∈ v.body.symbols, c.Stands s
  tokens : ∀ v ∈ c.vars, v.kind = .token → ∃ id entry, v.body = .symbol (.lexical id)
    ∧ c.lexicon[id]? = some entry ∧ entry.named = true ∧ entry.name = v.name
  namesakes : ∀ v ∈ c.vars, ∀ entry ∈ c.lexicon, entry.named = true → entry.name = v.name →
    v.kind = .token
  extras : ∀ s ∈ c.extras, c.Stands s
  word : ∀ s ∈ c.word, c.Stands s ∧ c.symbolRule s = .symbol (c.symbolName s)
  once : Lexicon.NamedOnce c.lexicon
  closed : ∀ entry ∈ c.lexicon, entry.content.Closed
  settledBodies : ∀ v ∈ c.vars, v.body.levelNames = []
  settledEntries : ∀ entry ∈ c.lexicon, entry.content.levelNames = []

end CompiledGrammar

namespace Grammar.Compiles

open NormalForm

variable {g : Grammar} {settings : Settings} {start : String} {c : CompiledGrammar}

/-- The start rule is a rule of the grammar. -/
theorem exists_start (h : g.Compiles settings start c) :
    ∃ info, g.table.get? start = some info :=
  SymbolTable.contains_iff.1 (startRule_eq_ok (Symbols.keyed_resolve g) h.first).2

theorem vars_eq (h : g.Compiles settings start c) :
    c.vars = (keptRules g.table start).map fun info =>
      { (g.naming start).variableIn (g.lexicon start) (inlinedRules g.table) info with
        body := ((g.naming start).bodyIn (g.lexicon start) info).resolveLevels (g.levels settings)
        fields := (g.settled settings start).fieldsOf
          (((g.naming start).bodyIn (g.lexicon start) info).resolveLevels (g.levels settings)) } := by
  have vars : (g.normalForm start).vars = _ := h.partsIn.vars
  rw [h.result]
  simp only [CompiledGrammar.ofNormalForm, NormalForm.resolveLevels, vars, List.map_map]
  rfl

/-- Every variable comes from a kept rule. -/
theorem exists_of_mem_vars (h : g.Compiles settings start c) {v : Variable} (mem : v ∈ c.vars) :
    ∃ info ∈ keptRules g.table start, v.name = info.name ∧ v.kind = info.kind
      ∧ v.body = ((g.naming start).bodyIn (g.lexicon start) info).resolveLevels
        (g.levels settings) := by
  rw [h.vars_eq] at mem
  obtain ⟨info, kept, rfl⟩ := List.mem_map.1 mem
  exact ⟨info, kept, rfl, rfl, rfl⟩

theorem names_eq (h : g.Compiles settings start c) :
    c.vars.map Variable.name = (keptRules g.table start).map SymbolInfo.name := by
  rw [h.vars_eq, List.map_map]
  rfl

theorem externals_eq (h : g.Compiles settings start c) :
    c.externals = (g.naming start).externals := by
  rw [h.result]
  rfl

theorem getElem?_lexicon (h : g.Compiles settings start c) (id : Nat) : c.lexicon[id]?
    = (g.lexicon start).entries[id]?.map (Lexicon.settleEntry (g.levels settings)) := by
  rw [h.lexicon_eq, Lexicon.getElem?_settle]

/-- A name of a variable is found among them. -/
theorem isSome_of_mem_vars (h : g.Compiles settings start c) {v : Variable} (mem : v ∈ c.vars) :
    ((g.naming start).vars.get? v.name).isSome := by
  obtain ⟨info, kept, name, -, -⟩ := h.exists_of_mem_vars mem
  obtain ⟨id, place⟩ := List.getElem?_of_mem kept
  rw [(get?_vars (Symbols.keyed_resolve g) v.name id).2 ⟨info, place, name.symm⟩]
  rfl

/-- An entry of the lexical table, before its precedences were settled. -/
theorem exists_of_mem_lexicon (h : g.Compiles settings start c) {entry : LexicalEntry}
    (mem : entry ∈ c.lexicon) : ∃ origin ∈ (g.lexicon start).entries,
      entry = Lexicon.settleEntry (g.levels settings) origin := by
  rw [h.lexicon_eq] at mem
  obtain ⟨origin, before, rfl⟩ := List.mem_map.1 mem
  exact ⟨origin, before, rfl⟩

theorem entered (h : g.Compiles settings start c) :
    (g.naming start).Entered (g.lexicon start) :=
  entered_lexiconOf (Symbols.keyed_resolve g) h.clean.normal

theorem kind?_of_named (h : g.Compiles settings start c) {entry : LexicalEntry}
    (mem : entry ∈ c.lexicon) (named : entry.named = true) :
    g.table.kind? entry.name = some .token := by
  obtain ⟨origin, before, rfl⟩ := h.exists_of_mem_lexicon mem
  exact (h.entered.named origin before named).1

/-- The symbol of a leaf without hidden names. -/
theorem stands_of_leaf (h : g.Compiles settings start c) {leaf : Rule} {s : Symbol}
    (visible : ∀ k ∈ leaf.occurrences, g.table.isInlined k = false)
    (found : (g.naming start).symbolIn (g.lexicon start) leaf = some s) : c.Stands s := by
  have keyed := Symbols.keyed_resolve g
  have anonymous {content : Rule} {immediate : Bool} {id : Nat}
      (found : (g.lexicon start).findAnonymous? content immediate = some id) :
      c.Stands (.lexical id) := by
    obtain ⟨entry, place, unnamed, -, -⟩ := Lexicon.exists_of_findAnonymous? found
    have settled : c.lexicon[id]? = some (Lexicon.settleEntry (g.levels settings) entry) := by
      rw [h.getElem?_lexicon, place]
      rfl
    exact .anonymous settled unnamed
  have outside {name : String} {named : Bool} {id : Nat}
      (found : (g.naming start).externalId? name named = some id)
      (apart : named = true → (∀ v ∈ c.vars, v.name ≠ name)
        ∧ ∀ entry ∈ c.lexicon, entry.named = true → entry.name ≠ name) :
      c.Stands (.external id) := by
    obtain ⟨token, place, rfl, rfl⟩ := Naming.exists_of_externalId? found
    refine .outside (by rw [h.externals_eq, place]) (fun n same => ?_) apart
    rw [Naming.externalId?_congr (same.trans h.externals_eq), found]
  cases leaf with
  | terminal t =>
    rw [Naming.symbolIn] at found
    cases given : (g.naming start).outside? t with
    | some id =>
      rw [given] at found
      obtain rfl := Option.some.inj found
      cases t with
      | literal text => exact outside given nofun
      | pattern value flags => cases given
    | none =>
      rw [given] at found
      obtain ⟨id, place, rfl⟩ := Option.map_eq_some_iff.1 found
      exact anonymous place
  | token content immediate =>
    obtain ⟨id, place, rfl⟩ := Option.map_eq_some_iff.1 found
    exact anonymous place
  | symbol name =>
    have hidden := visible name (by simp [Rule.occurrences])
    rw [Naming.symbolIn, Naming.nameIn] at found
    cases vars : (g.naming start).vars.get? name with
    | some id =>
      rw [vars] at found
      obtain rfl := Option.some.inj found
      obtain ⟨info, place, rfl⟩ := (get?_vars keyed name id).1 vars
      refine .rule (by rw [h.vars_eq, List.getElem?_map, place]; rfl) ?_
      have get := get?_of_mem_keptRules keyed (List.mem_of_getElem? place)
      simp only [SymbolTable.isInlined, SymbolTable.kind?, get, Option.map_some] at hidden
      simpa [Variable.isHidden, Naming.variableIn] using hidden
    | none =>
      have apart : ∀ v ∈ c.vars, v.name ≠ name := by
        rintro v mem rfl
        have known := h.isSome_of_mem_vars mem
        rw [vars] at known
        cases known
      rw [vars] at found
      dsimp only at found
      split at found <;> rename_i kind
      · obtain ⟨id, entered, rfl⟩ := Option.map_eq_some_iff.1 found
        obtain ⟨entry, place, named, rfl⟩ := Lexicon.exists_of_findNamed? entered
        have settled : c.lexicon[id]? = some (Lexicon.settleEntry (g.levels settings) entry) := by
          rw [h.getElem?_lexicon, place]
          rfl
        exact .named settled named apart
      · cases found
      · obtain ⟨id, place, rfl⟩ := Option.map_eq_some_iff.1 found
        refine outside place fun _ => ⟨apart, ?_⟩
        rintro entry mem named rfl
        have token := h.kind?_of_named mem named
        rw [show g.table.kind? entry.name = none from kind] at token
        cases token
  | _ => cases found

theorem stands_of_body (h : g.Compiles settings start c) {info : SymbolInfo}
    (mem : info ∈ keptRules g.table start) (kind : info.kind ≠ .token) {s : Symbol}
    (hs : s ∈ ((g.naming start).bodyIn (g.lexicon start) info).symbols) : c.Stands s := by
  obtain ⟨inlined, -, bodyOf, by_⟩ := @exists_bodyOf g start h.clean _ _
    (get?_of_mem_keptRules (Symbols.keyed_resolve g) mem)
  rw [Naming.bodyIn, if_neg kind] at hs
  obtain ⟨leaf, hl, found⟩ := Naming.exists_leaf_of_mem_symbols _ hs
  exact h.stands_of_leaf
    (fun k hk => by_.visible k (bodyOf ▸ Rule.mem_occurrences_of_leaf hk _ hl)) found

theorem stands_of_extra (h : g.Compiles settings start c) : ∀ s ∈ c.extras, c.Stands s := by
  have inlined := extras_inlined (g := g) (Symbols.keyed_resolve g)
    (quiet_extrasRun h.clean.normal)
  have lowered := h.partsIn.extras
  have same : c.extras = (partsRun g g.table start).1.extras := by
    rw [h.result]
    rfl
  rw [same]
  generalize (partsRun g g.table start).1.extras = symbols at lowered
  generalize (extrasRun g g.table).1 = rules at inlined lowered
  generalize g.extras = sources at inlined
  induction lowered generalizing sources with
  | nil => simp
  | @cons rule symbol rules symbols head _ ih =>
    cases inlined with
    | cons first rest =>
      intro s hs
      rcases List.mem_cons.1 hs with rfl | hs
      · obtain ⟨used, by_⟩ := first
        have mem : s ∈ ((g.naming start).lowered (g.lexicon start) rule).symbols := by
          rw [head.1]
          exact List.mem_singleton_self s
        obtain ⟨leaf, hl, found⟩ := Naming.exists_leaf_of_mem_symbols _ mem
        exact h.stands_of_leaf
          (fun k hk => by_.visible k (Rule.mem_occurrences_of_leaf hk _ hl)) found
      · exact ih _ rest s hs

/-- What a name stands for is written by that name. -/
theorem symbolRule_of_nameIn (h : g.Compiles settings start c) {name : String} {s : Symbol}
    (found : (g.naming start).nameIn (g.lexicon start) name = some s) :
    c.symbolRule s = .symbol (c.symbolName s) := by
  rw [Naming.nameIn] at found
  cases vars : (g.naming start).vars.get? name with
  | some id =>
    rw [vars] at found
    obtain rfl := Option.some.inj found
    rfl
  | none =>
    rw [vars] at found
    dsimp only at found
    split at found
    · obtain ⟨id, entered, rfl⟩ := Option.map_eq_some_iff.1 found
      obtain ⟨entry, place, named, -⟩ := Lexicon.exists_of_findNamed? entered
      rw [CompiledGrammar.symbolRule, CompiledGrammar.symbolName, h.getElem?_lexicon, place]
      exact if_pos named
    · cases found
    · obtain ⟨id, outside, rfl⟩ := Option.map_eq_some_iff.1 found
      obtain ⟨token, place, named, -⟩ := Naming.exists_of_externalId? outside
      rw [CompiledGrammar.symbolRule, CompiledGrammar.symbolName, h.externals_eq, place]
      exact if_pos named

/-- The word rule is a token rule. -/
theorem exists_token_of_word (h : g.Compiles settings start c) {name : String}
    (given : g.word = some name) :
    ∃ info, g.table.get? name = some info ∧ info.kind = .token := by
  have known := (Symbols.known_of_references h.clean.names).2.2 name given
  obtain ⟨info, get⟩ := SymbolTable.contains_iff.1 known
  refine ⟨info, get, ?_⟩
  have quiet := h.names
  simp only [Symbols.resolve, List.append_eq_nil_iff] at quiet
  have report := List.filterMap_eq_nil_iff.1 quiet.2 name (by simpa using given)
  rw [show (Symbols.classify _ _ _ _).get? name = some info from get] at report
  by_contra other
  dsimp only at report
  rw [if_neg other] at report
  cases report

/-- The word rule is a token rule, so it is not hidden. -/
theorem stands_of_word (h : g.Compiles settings start c) :
    ∀ s ∈ c.word, c.Stands s ∧ c.symbolRule s = .symbol (c.symbolName s) := by
  intro s hs
  have word : c.word = g.word.bind ((g.naming start).nameIn (g.lexicon start)) := by
    rw [h.result]
    exact h.partsIn.word
  rw [word] at hs
  obtain ⟨name, given, found⟩ := Option.bind_eq_some_iff.1 hs
  obtain ⟨info, get, token⟩ := h.exists_token_of_word given
  refine ⟨@stands_of_leaf _ _ _ _ h (.symbol name) _ (fun k hk => ?_) found,
    h.symbolRule_of_nameIn found⟩
  rw [List.mem_singleton.1 hk, SymbolTable.isInlined, SymbolTable.kind?, get, Option.map_some,
    token]
  rfl

theorem closed_of_mem (h : g.Compiles settings start c) : ∀ entry ∈ c.lexicon,
    entry.content.Closed := by
  intro entry mem
  obtain ⟨origin, before, rfl⟩ := h.exists_of_mem_lexicon mem
  refine Rule.Closed.resolveLevels ?_
  cases named : origin.named with
  | true =>
    rw [(h.entered.named origin before named).2.1]
    exact (TokenContent.closed_of _ _ _ _).canonicalize
  | false =>
    rcases h.entered.anonymous origin before named with ⟨t, -, same, -⟩ | ⟨content, -, same, -⟩
    · rw [same]
      exact .terminal t
    · rw [same]
      exact (TokenContent.closed_of _ _ _ _).canonicalize

/-- A compiled grammar is arranged. -/
theorem arranged (h : g.Compiles settings start c) : c.Arranged where
  starts := by
    obtain ⟨info, get⟩ := h.exists_start
    have nonempty : c.vars ≠ [] := by
      rw [h.vars_eq, keptRules, get]
      simp
    have first : c.start = (c.vars.head?.map Variable.name).getD "" := by
      rw [h.result]
      simp only [CompiledGrammar.ofNormalForm, List.head?_map, Option.map_map]
      rfl
    obtain ⟨v, vs, split⟩ := List.exists_cons_of_ne_nil nonempty
    rw [first, split]
    exact ⟨v, rfl, rfl⟩
  names := by
    rw [h.names_eq]
    exact nodup_keptRules (Symbols.keyed_resolve g)
  kept := by
    obtain ⟨first, get⟩ := h.exists_start
    intro v mem
    rw [h.vars_eq, keptRules, get, ← List.map_tail] at mem
    obtain ⟨info, rest, rfl⟩ := List.mem_map.1 mem
    have kept := (List.mem_filter.1 rest).2
    rw [Bool.and_eq_true] at kept
    exact kept.1
  bodies v mem kind := by
    obtain ⟨info, kept, -, sameKind, body⟩ := h.exists_of_mem_vars mem
    rw [body, Expr.symbols_resolveLevels]
    exact fun s hs => h.stands_of_body kept (sameKind ▸ kind) hs
  tokens v mem kind := by
    obtain ⟨info, kept, name, sameKind, body⟩ := h.exists_of_mem_vars mem
    have token : info.kind = .token := sameKind ▸ kind
    have placed := h.partsIn.bodies info kept
    rw [Naming.BodyPlaced, if_pos token] at placed
    obtain ⟨id, found⟩ := Option.isSome_iff_exists.1 placed
    obtain ⟨entry, place, named, same⟩ := Lexicon.exists_of_findNamed? found
    refine ⟨id, Lexicon.settleEntry (g.levels settings) entry, ?_, ?_, named, same.trans name.symm⟩
    · rw [body, Naming.bodyIn, if_pos token, found]
      rfl
    · rw [h.getElem?_lexicon, place]
      rfl
  namesakes v mem entry entryMem named same := by
    obtain ⟨info, kept, name, sameKind, -⟩ := h.exists_of_mem_vars mem
    have kind := h.kind?_of_named entryMem named
    have get := get?_of_mem_keptRules (Symbols.keyed_resolve g) kept
    rw [same, name, SymbolTable.kind?, get, Option.map_some] at kind
    rw [sameKind]
    exact Option.some.inj kind
  extras := h.stands_of_extra
  word := h.stands_of_word
  once := by
    have steps := (@steps_partsRun g g.table start (Symbols.keyed_resolve g)
      (quiet_extrasRun h.clean.normal)).1
    rw [h.lexicon_eq]
    refine List.pairwise_map.2 (steps.namedOnce ?_)
    exact List.Pairwise.nil
  closed := h.closed_of_mem
  settledBodies v mem := by
    obtain ⟨info, -, -, -, body⟩ := h.exists_of_mem_vars mem
    rw [body]
    exact Expr.levelNames_resolveLevels _
  settledEntries entry mem := by
    obtain ⟨origin, -, rfl⟩ := h.exists_of_mem_lexicon mem
    exact Rule.levelNames_resolveLevels _

end Grammar.Compiles

end Productions
