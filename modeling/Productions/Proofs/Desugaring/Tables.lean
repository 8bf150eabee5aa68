import Productions.Proofs.Desugaring.Rules
import Productions.Proofs.Fixpoint
import Productions.Symbols.Resolution

/-! Names of grammars that look alike. Tables of symbols with bodies that look alike are classified
alike, and the reports on them are the same. -/
namespace Productions

open OrderedMap (Related)

structure SymbolTable.RefersAlike (t u : SymbolTable) : Prop where
  rules : Related (fun i j => i.name = j.name ∧ i.refs = j.refs) t.rules u.rules
  externals : t.externals = u.externals

structure Grammar.MentionsAlike (g g' : Grammar) : Prop where
  extras : List.Forall₂ (fun r s => r.symbols = s.symbols) g.extras g'.extras
  precedences : g.precedences = g'.precedences
  conflicts : g.conflicts = g'.conflicts
  inlined : g.inlined = g'.inlined
  supertypes : g.supertypes = g'.supertypes
  word : g.word = g'.word

namespace SymbolTable.RefersAlike

variable {t u : SymbolTable} (h : t.RefersAlike u)

include h

theorem contains_eq : t.contains = u.contains := h.rules.contains_eq

theorem referenceGraph_eq : Symbols.referenceGraph t = Symbols.referenceGraph u :=
  h.rules.mapValues_eq fun _ i j r => by rw [r.2, h.contains_eq]

theorem referenceReports_eq {g g' : Grammar} (mentions : g.MentionsAlike g') :
    Symbols.referenceReports g t = Symbols.referenceReports g' u := by
  have bodies : t.infos.flatMap (fun info => Symbols.unresolvedIn
        (fun name => t.contains name || t.externals.contains name)
        ("`" ++ info.name ++ "`") (some info.name) info.refs.toList)
      = u.infos.flatMap (fun info => Symbols.unresolvedIn
        (fun name => u.contains name || u.externals.contains name)
        ("`" ++ info.name ++ "`") (some info.name) info.refs.toList) :=
    flatMap_eq_of_forall₂ h.rules.values fun i j r => by
      rw [r.1, r.2, h.contains_eq, h.externals]
  have extras : g.extras.flatMap (fun extra => Symbols.unresolvedIn
        (fun name => t.contains name || t.externals.contains name) "extras" none
        extra.symbols.toList)
      = g'.extras.flatMap (fun extra => Symbols.unresolvedIn
        (fun name => u.contains name || u.externals.contains name) "extras" none
        extra.symbols.toList) :=
    flatMap_eq_of_forall₂ mentions.extras fun r s same => by
      rw [same, h.contains_eq, h.externals]
  simp only [Symbols.referenceReports]
  rw [bodies, extras]
  simp only [h.contains_eq, mentions.conflicts, mentions.inlined, mentions.supertypes,
    mentions.precedences, mentions.word]

end SymbolTable.RefersAlike

structure SymbolInfo.Alike (i j : SymbolInfo) : Prop where
  name : i.name = j.name
  index : i.index = j.index
  kind : i.kind = j.kind
  refs : i.refs = j.refs
  nullable : i.nullable = j.nullable
  body : i.body.Alike j.body

structure SymbolTable.Alike (t u : SymbolTable) : Prop where
  rules : Related SymbolInfo.Alike t.rules u.rules
  externals : t.externals = u.externals

namespace SymbolTable.Alike

variable {t u : SymbolTable} (h : t.Alike u)

include h

theorem refersAlike : t.RefersAlike u where
  rules := List.Forall₂.imp (fun _ _ r => ⟨r.1, r.2.name, r.2.refs⟩) h.rules
  externals := h.externals

theorem infos : List.Forall₂ SymbolInfo.Alike t.infos u.infos := h.rules.values

theorem names_eq : t.infos.map SymbolInfo.name = u.infos.map SymbolInfo.name :=
  map_eq_of_forall₂ h.infos fun _ _ r => r.name

theorem get?_cases (name : String) : (t.get? name = none ∧ u.get? name = none)
    ∨ ∃ i j : SymbolInfo, t.get? name = some i ∧ u.get? name = some j ∧ i.Alike j :=
  h.rules.get?_cases name

theorem map_get? {α : Type} {f : SymbolInfo → α}
    (same : ∀ i j : SymbolInfo, i.Alike j → f i = f j) (name : String) :
    (t.get? name).map f = (u.get? name).map f := by
  obtain ⟨found, found'⟩ | ⟨i, j, found, found', r⟩ := h.get?_cases name
  · rw [found, found', Option.map_none]
  · rw [found, found']
    exact congrArg some (same i j r)

theorem kind?_eq : t.kind? = u.kind? :=
  funext (h.map_get? fun _ _ r => r.kind)

theorem isInlined_eq : t.isInlined = u.isInlined := by
  funext name
  rw [isInlined, isInlined, h.kind?_eq]

theorem nullableNames_eq : Rule.nullableNames t.bodies = Rule.nullableNames u.bodies := by
  let holds (found : String → Bool) (verdict : (String → Bool) → Bool) : Bool := verdict found
  have settled (bodies : OrderedMap String Rule) : Rule.nullableNames bodies
      = OrderedSet.leastClosed holds
          (bodies.entries.map (Prod.map id fun body isNullable => body.nullable isNullable)) :=
    Eq.symm (OrderedSet.leastClosed_map _ bodies.entries)
  have bodies : Related Rule.Alike t.bodies u.bodies := h.rules.mapValues fun _ _ _ r => r.body
  rw [settled, settled, map_eq_of_forall₂ bodies]
  rintro ⟨name, body⟩ ⟨_, body'⟩ ⟨rfl, r⟩
  exact congrArg (Prod.mk name) r.nullable

end SymbolTable.Alike

namespace Symbols

variable {t u : SymbolTable}

section

variable (h : t.Alike u)

include h

theorem isTokenRule_eq : isTokenRule t = isTokenRule u := by
  funext name
  rw [isTokenRule, isTokenRule]
  obtain ⟨found, found'⟩ | ⟨i, j, found, found', r⟩ := h.get?_cases name
  · rw [found, found', Option.any_none]
  · rw [found, found']
    exact r.body.isTokenShaped

theorem isLexicalRule_eq : isLexicalRule t = isLexicalRule u := by
  funext lexical name
  rw [isLexicalRule, isLexicalRule, h.externals]
  obtain ⟨found, found'⟩ | ⟨i, j, found, found', r⟩ := h.get?_cases name
  · rw [found, found']
  · rw [found, found']
    simp only [Option.any_some, r.body.isTokenShaped, r.body.hasField, r.refs]

theorem lexicalRules_eq (graph : Graph String) : lexicalRules t graph = lexicalRules u graph := by
  have each : addLexical t graph = addLexical u graph := by
    funext lexical component
    rw [addLexical, addLexical, isTokenRule_eq h, isLexicalRule_eq h]
  rw [lexicalRules, lexicalRules, each]

theorem unitGraph_eq (nullable : OrderedSet String) (component : List String) :
    unitGraph t nullable component = unitGraph u nullable component := by
  unfold unitGraph
  congr 1
  funext m name
  obtain ⟨found, found'⟩ | ⟨i, j, found, found', r⟩ := h.get?_cases name
  · rw [found, found']
  · rw [found, found']
    simp only [r.body.hasField, r.body.units]

theorem unitCycleReports_eq (graph : Graph String) (nullable : OrderedSet String) :
    unitCycleReports t graph nullable = unitCycleReports u graph nullable := by
  have kind : cycleKind t = cycleKind u := by
    funext cycle
    rw [cycleKind, cycleKind, h.isInlined_eq, isTokenRule_eq h]
  have each : unitCycleReport t nullable = unitCycleReport u nullable := by
    funext component
    rw [unitCycleReport, unitCycleReport, unitGraph_eq h, kind]
  rw [unitCycleReports, unitCycleReports, each]

theorem classify_alike (supertypes : List String) (lexical nullable : OrderedSet String) :
    (classify supertypes lexical nullable t).Alike (classify supertypes lexical nullable u) where
  rules := h.rules.mapValues fun _ i j r =>
    { r with
      kind := by
        simp only [kindOf, r.kind, r.name, r.body.isTokenShaped, r.body.isSymbolChoice]
      nullable := rfl }
  externals := h.externals

end

end Symbols

structure Definition.Alike (d e : Definition) : Prop where
  name : d.name = e.name
  hidden : d.hidden = e.hidden
  body : d.body.Alike e.body

/-- Grammars that differ at most in bodies and extras that look alike. -/
structure Grammar.Alike (g g' : Grammar) : Prop where
  name : g.name = g'.name
  rules : List.Forall₂ Definition.Alike g.rules g'.rules
  extras : List.Forall₂ Rule.Alike g.extras g'.extras
  precedences : g.precedences = g'.precedences
  conflicts : g.conflicts = g'.conflicts
  externals : g.externals = g'.externals
  inlined : g.inlined = g'.inlined
  supertypes : g.supertypes = g'.supertypes
  word : g.word = g'.word

theorem Grammar.Alike.mentionsAlike {g g' : Grammar} (h : g.Alike g') : g.MentionsAlike g' where
  extras := h.extras.imp fun _ _ r => r.symbols
  precedences := h.precedences
  conflicts := h.conflicts
  inlined := h.inlined
  supertypes := h.supertypes
  word := h.word

namespace Symbols

variable {g g' : Grammar} (h : g.Alike g')

include h

theorem declared_alike : (declared g).Alike (declared g') where
  rules := by
    refine List.rel_foldl ?_ .nil (forall₂_zipIdx h.rules 0)
    rintro m n related ⟨d, i⟩ ⟨e, _⟩ ⟨alike, rfl⟩
    obtain ⟨name, hidden, body⟩ : d.Alike e := alike
    have entries : (declare g i d).Alike (declare g' i e) :=
      ⟨name, rfl, by simp only [declare, name, hidden, h.inlined], body.symbols, rfl, body⟩
    simp only [name]
    exact related.insertIfNew e.name entries
  externals := by simp only [declared, h.externals]

theorem duplicateReports_eq {t u : SymbolTable} (tables : t.Alike u) :
    duplicateReports g t = duplicateReports g' u := by
  refine filterMap_eq_of_forall₂ (forall₂_zipIdx h.rules 0) ?_
  rintro ⟨d, place⟩ ⟨e, _⟩ ⟨alike, rfl⟩
  have name : d.name = e.name := alike.name
  simp only [name]
  obtain ⟨found, found'⟩ | ⟨i, j, found, found', r⟩ := tables.get?_cases e.name
  · rw [found, found']
  · rw [found, found']
    simp only [r.index]

theorem supertypeReports_eq {t u : SymbolTable} (tables : t.Alike u) :
    supertypeReports g t = supertypeReports g' u := by
  rw [supertypeReports, supertypeReports, h.supertypes]
  congr 1
  funext name
  obtain ⟨found, found'⟩ | ⟨i, j, found, found', r⟩ := tables.get?_cases name
  · rw [found, found']
  · rw [found, found']
    simp only [r.body.isSymbolChoice]

theorem wordReports_eq {t u : SymbolTable} (tables : t.Alike u) :
    wordReports g t = wordReports g' u := by
  rw [wordReports, wordReports, h.word]
  congr 1
  funext name
  obtain ⟨found, found'⟩ | ⟨i, j, found, found', r⟩ := tables.get?_cases name
  · rw [found, found']
  · rw [found, found']
    simp only [r.kind]

theorem resolve_alike : (resolve g).1.Alike (resolve g').1 ∧ (resolve g).2 = (resolve g').2 := by
  have start := declared_alike h
  have tables : (resolve g).1.Alike (resolve g').1 := by
    simp only [resolve, h.supertypes, start.refersAlike.referenceGraph_eq, lexicalRules_eq start,
      start.nullableNames_eq]
    exact classify_alike start _ _ _
  refine ⟨tables, ?_⟩
  have supertypes := supertypeReports_eq h tables
  have word := wordReports_eq h tables
  simp only [resolve] at supertypes word ⊢
  rw [duplicateReports_eq h start, start.refersAlike.referenceReports_eq h.mentionsAlike,
    supertypes, word, start.nullableNames_eq, start.refersAlike.referenceGraph_eq,
    unitCycleReports_eq start]

end Symbols

end Productions
