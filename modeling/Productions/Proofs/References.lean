import Productions.Proofs.Desugaring.Tables
import Productions.Proofs.Inlining.Invariants
import Productions.Proofs.Symbols.CanonicalKinds

/-! References and canonical form. Canonical form flattens, drops alternatives that are there before
and writes out repetitions, so a name may occur more or fewer times than in the rule as written; its
first occurrence stays where it was among those of other names. Hence whatever follows the
references of rules finds the same in rules as written as in their canonical forms. -/
namespace Productions

namespace Rule

theorem flatMap_seqParts (r : Rule) : r.seqParts.flatMap occurrences = r.occurrences := by
  cases r <;> simp [seqParts, occurrences, occurrencesAll_eq_flatMap]

theorem flatMap_choiceParts (r : Rule) : r.choiceParts.flatMap occurrences = r.occurrences := by
  cases r <;> simp [choiceParts, occurrences, occurrencesAll_eq_flatMap]

/-- Flattening a sequence keeps every occurrence. -/
theorem occurrences_makeSeq (rules : List Rule) :
    (makeSeq rules).occurrences = rules.flatMap occurrences := by
  have parts : (rules.flatMap seqParts).flatMap occurrences = rules.flatMap occurrences := by
    rw [List.flatMap_assoc]
    exact List.flatMap_congr fun r _ => flatMap_seqParts r
  rw [← parts, makeSeq]
  split
  · rename_i part one
    rw [one, List.flatMap_singleton]
  · rw [occurrences, occurrencesAll_eq_flatMap]

/-- An alternative that is dropped has been there before with all its names. -/
theorem symbols_makeChoice (rules : List Rule) :
    (makeChoice rules).symbols = OrderedSet.ofList (rules.flatMap occurrences) := by
  have parts : OrderedSet.ofList
      ((OrderedSet.ofList (rules.flatMap choiceParts)).toList.flatMap occurrences)
        = OrderedSet.ofList (rules.flatMap occurrences) := by
    rw [OrderedSet.ofList_flatMap_ofList, List.flatMap_assoc]
    exact congrArg OrderedSet.ofList (List.flatMap_congr fun r _ => flatMap_choiceParts r)
  rw [← parts, symbols, makeChoice]
  split
  · rename_i part one
    rw [one, List.flatMap_singleton]
  · rw [occurrences, occurrencesAll_eq_flatMap]

/-- What a repetition of one or more repeats brings no new name. -/
theorem symbols_makeRepeated (r : Rule) (repetition : Repetition) :
    (makeRepeated r repetition).symbols = r.symbols := by
  cases repetition with
  | zeroOrMore => rfl
  | oneOrMore =>
    rw [symbols, makeRepeated, occurrences_makeSeq]
    simp only [List.flatMap_cons, List.flatMap_nil, occurrences, List.append_nil]
    exact OrderedSet.ofList_append_self _

theorem symbols_flatMap_canonicalize {members : List Rule}
    (each : ∀ r ∈ members, r.canonicalize.symbols = r.symbols) :
    OrderedSet.ofList ((members.map canonicalize).flatMap occurrences)
      = OrderedSet.ofList (members.flatMap occurrences) := by
  rw [List.flatMap_map]
  exact OrderedSet.ofList_flatMap_congr each

theorem symbols_canonicalize (r : Rule) : r.canonicalize.symbols = r.symbols := by
  induction r with
  | terminal | symbol => rfl
  | seq members ih =>
    rw [symbols, canonicalize, canonicalizeAll_eq_map, occurrences_makeSeq,
      symbols_flatMap_canonicalize ih, symbols, occurrences, occurrencesAll_eq_flatMap]
  | choice members ih =>
    rw [canonicalize, canonicalizeAll_eq_map, symbols_makeChoice,
      symbols_flatMap_canonicalize ih, symbols, occurrences, occurrencesAll_eq_flatMap]
  | repeated content repetition ih =>
    rw [canonicalize, symbols_makeRepeated, ih]
    rfl
  | optional content ih =>
    rw [canonicalize, symbols_makeChoice]
    simp only [List.flatMap_cons, List.flatMap_nil, blank, occurrences, occurrencesAll,
      List.append_nil]
    exact ih
  | token content immediate ih =>
    rw [symbols, canonicalize, occurrences_makeToken]
    exact ih
  | prec _ _ content ih | aliased content _ _ ih | field _ content ih => exact ih

/-- The names that a rule refers to, each once, in the order of their first occurrences. -/
structure Refers (r : Rule) (names : List String) : Prop where
  exact : ∀ name, name ∈ names ↔ name ∈ r.occurrences
  once : names.Nodup
  ordered : names.Pairwise fun a b => r.occurrences.idxOf a < r.occurrences.idxOf b

theorem refers_symbols (r : Rule) : r.Refers r.symbols.toList where
  exact _ := OrderedSet.mem_toList.trans OrderedSet.mem_ofList
  once := r.symbols.nodup
  ordered := OrderedSet.pairwise_idxOf r.occurrences

end Rule

open OrderedMap (Related)

structure SymbolInfo.Canonizes (i j : SymbolInfo) : Prop where
  name : i.name = j.name
  hidden : i.kind = .hidden ↔ j.kind = .hidden
  body : i.body.canonicalize = j.body
  refs : i.refs = j.refs

structure SymbolTable.Canonizes (t u : SymbolTable) : Prop where
  rules : Related SymbolInfo.Canonizes t.rules u.rules
  externals : t.externals = u.externals

namespace SymbolTable.Canonizes

variable {t u : SymbolTable} (h : t.Canonizes u)

include h

theorem refersAlike : t.RefersAlike u where
  rules := List.Forall₂.imp (fun _ _ r => ⟨r.1, r.2.name, r.2.refs⟩) h.rules
  externals := h.externals

theorem get?_cases (name : String) : (t.get? name = none ∧ u.get? name = none)
    ∨ ∃ i j : SymbolInfo, t.get? name = some i ∧ u.get? name = some j ∧ i.Canonizes j :=
  h.rules.get?_cases name

theorem isInlined_eq : t.isInlined = u.isInlined := by
  funext name
  rw [Bool.eq_iff_iff, isInlined, isInlined, kind?, kind?]
  obtain ⟨found, found'⟩ | ⟨i, j, found, found', r⟩ := h.get?_cases name
  · rw [found, found']
  · simp only [found, found', Option.map_some, beq_iff_eq, Option.some_inj, r.hidden]

/-- Bodies as written refer to the hidden rules to which their canonical forms refer. -/
theorem refersHidden_eq : Inlining.RefersHidden t = Inlining.RefersHidden u := by
  rw [← Inlining.hiddenStep_eq_refersHidden]
  funext a b
  rw [Inlining.HiddenStep, Inlining.RefersHidden, h.isInlined_eq]
  obtain ⟨found, found'⟩ | ⟨i, j, found, found', r⟩ := h.get?_cases a
  · simp [found, found']
  · simp [found, found', r.body]

end SymbolTable.Canonizes

def Grammar.canonicalThroughout (g : Grammar) : Grammar :=
  { g.canonical with extras := g.extras.map Rule.canonicalize }

theorem Grammar.mentionsAlike_canonicalThroughout (g : Grammar) :
    g.MentionsAlike g.canonicalThroughout where
  extras := by
    simp [canonicalThroughout, List.forall₂_map_right_iff, List.forall₂_same,
      Rule.symbols_canonicalize]
  precedences := rfl
  conflicts := rfl
  inlined := rfl
  supertypes := rfl
  word := rfl

namespace Symbols

variable (g : Grammar)

theorem declared_canonizes : (declared g).Canonizes (declared g.canonicalThroughout) where
  rules := by
    have rules : List.Forall₂ (fun d e : Definition => e = d.canonical) g.rules
        (g.rules.map Definition.canonical) := by
      simp [List.forall₂_map_right_iff, List.forall₂_same]
    refine List.rel_foldl ?_ .nil (forall₂_zipIdx rules 0)
    rintro m n related ⟨d, i⟩ ⟨_, _⟩ ⟨rfl, rfl⟩
    exact related.insertIfNew d.name
      ⟨rfl, Iff.rfl, rfl, (Rule.symbols_canonicalize d.body).symm⟩
  externals := rfl

theorem resolve_canonizes : (resolve g).1.Canonizes (resolve g.canonicalThroughout).1 where
  rules := (declared_canonizes g).rules.mapValues fun _ i j r =>
    ⟨r.name, by rw [kindOf_eq_hidden_iff, kindOf_eq_hidden_iff, r.hidden], r.body, r.refs⟩
  externals := rfl

end Symbols

theorem Inlining.hiddenCycle_iff {t u : SymbolTable} (h : t.Canonizes u) {cycle : List String} :
    HiddenCycle u cycle ↔ HiddenCycle t cycle := by
  constructor
  · intro is
    exact ⟨is.nonempty, is.distinct, h.isInlined_eq ▸ is.hidden, h.refersHidden_eq ▸ is.closed⟩
  · intro is
    exact ⟨is.nonempty, is.distinct, h.isInlined_eq ▸ is.hidden, h.refersHidden_eq ▸ is.closed⟩

namespace NormalForm

/-- The members of a supertype are entered with the first mention of its name. -/
theorem get?_foldl_members (t : SymbolTable) (names : List String)
    (m : OrderedMap String (List String)) (name : String) :
    (names.foldl (fun m name =>
        match t.get? name with
        | some info => m.insertIfNew name info.body.canonicalize.symbols.toList
        | none => m) m).get? name
      = (m.get? name).or (if name ∈ names then
          (t.get? name).map fun info => info.body.canonicalize.symbols.toList else none) := by
  induction names generalizing m with
  | nil => simp
  | cons first names ih =>
    rw [List.foldl_cons, ih]
    cases found : t.get? first with
    | none =>
      by_cases same : name = first
      · simp [same, found]
      · simp [same]
    | some info =>
      rw [OrderedMap.get?_insertIfNew, Option.or_assoc]
      by_cases same : name = first
      · simp [same, found]
      · simp [same]

/-- The members of a supertype are the references of its rule as it was written. -/
theorem members_supertypesOf {g : Grammar} {t : SymbolTable} {name : String}
    {members : List String} (listed : (supertypesOf g t).get? name = some members) :
    ∃ info, t.get? name = some info ∧ members = info.body.symbols.toList := by
  have entered := (get?_foldl_members t _ ∅ name).symm.trans listed
  rw [OrderedMap.get?_empty, Option.none_or] at entered
  split at entered
  · obtain ⟨info, get, rfl⟩ := Option.map_eq_some_iff.1 entered
    exact ⟨info, get, by rw [Rule.symbols_canonicalize]⟩
  · cases entered

end NormalForm

/-- References that are checked or followed in the rules of a grammar as they are written are those
of the canonical forms, which are what is lowered. -/
structure Grammar.ReferencesKept (g : Grammar) : Prop where
  recorded : ∀ name info, (Symbols.resolve g).1.get? name = some info →
    info.body.canonicalize.Refers info.refs.toList
  resolution : Symbols.referenceReports g.canonicalThroughout
      (Symbols.declared g.canonicalThroughout) = Symbols.referenceReports g (Symbols.declared g)
  reachability : Symbols.referenceGraph (Symbols.resolve g.canonicalThroughout).1
    = Symbols.referenceGraph (Symbols.resolve g).1
  cycles : ∀ cycle, Inlining.HiddenCycle (Symbols.resolve g.canonicalThroughout).1 cycle
    ↔ Inlining.HiddenCycle (Symbols.resolve g).1 cycle
  members : ∀ name members,
    (NormalForm.supertypesOf g (Symbols.resolve g).1).get? name = some members →
      ∃ info, (Symbols.resolve g).1.get? name = some info ∧ members = info.refs.toList

/-- Canonical form keeps the names that a rule refers to and the order in which they are first
mentioned. So names are resolved, reached, expanded and listed as members in the same way whether
rules are taken as they are written or in canonical form. -/
theorem Grammar.references_kept :
    (∀ r : Rule, r.canonicalize.symbols = r.symbols ∧ r.Refers r.symbols.toList
      ∧ r.canonicalize.Refers r.symbols.toList)
      ∧ ∀ g : Grammar, g.ReferencesKept := by
  have kept (r : Rule) : r.canonicalize.Refers r.symbols.toList := by
    rw [← r.symbols_canonicalize]
    exact r.canonicalize.refers_symbols
  refine ⟨fun r => ⟨r.symbols_canonicalize, r.refers_symbols, kept r⟩, fun g => ?_⟩
  have tables := Symbols.resolve_canonizes g
  have refs {name : String} {info : SymbolInfo}
      (get : (Symbols.resolve g).1.get? name = some info) : info.refs = info.body.symbols := by
    obtain ⟨d, -, -, describes⟩ := Symbols.describes_of_get? get
    rw [describes.refs, describes.body]
  have reports := (Symbols.declared_canonizes g).refersAlike.referenceReports_eq
    g.mentionsAlike_canonicalThroughout
  refine ⟨fun name info get => ?_, reports.symm, tables.refersAlike.referenceGraph_eq.symm,
    fun _ => Inlining.hiddenCycle_iff tables, fun name members listed => ?_⟩
  · rw [refs get]
    exact kept info.body
  · obtain ⟨info, get, rfl⟩ := NormalForm.members_supertypesOf listed
    exact ⟨info, get, by rw [refs get]⟩

example : (Rule.seq [.choice [.symbol "c", .symbol "d", .symbol "c"],
      .repeated (.seq [.symbol "e", .symbol "d"]) .oneOrMore]).canonicalize.symbols.toList
    = ["c", "d", "e"] := by
  cbv

end Productions
