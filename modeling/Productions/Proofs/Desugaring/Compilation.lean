import Productions.Proofs.Desugaring.Inlining
import Productions.Proofs.Stages

/-! Grammars that look alike are compiled alike: to the same compiled grammar, or they fail at the
same stage with the same reports. So it makes no difference whether optional parts and repetitions
of one or more are written out. -/
namespace Productions

namespace TokenContent

variable {t u : SymbolTable}

theorem isLexical_eq (h : t.Alike u) : isLexical t = isLexical u := by
  funext name
  rw [isLexical, isLexical, h.kind?_eq]

theorem replacement_eq (h : t.Alike u) (bodies : OrderedMap String Rule) (fuel : Nat) :
    replacement t bodies fuel = replacement u bodies fuel := by
  induction fuel with
  | zero => rfl
  | succ fuel ih =>
    funext chain name
    simp only [replacement, usable?, isLexical_eq h, ih]

theorem referenceReports_eq (h : t.Alike u) (bodies : OrderedMap String Rule) (owner : String)
    (fuel : Nat) : referenceReports t bodies owner fuel = referenceReports u bodies owner fuel := by
  induction fuel with
  | zero => rfl
  | succ fuel ih =>
    funext chain name
    simp only [referenceReports, isLexical_eq h, ih]

end TokenContent

namespace Lowering

variable {n : Naming} {u : SymbolTable}

theorem tokenContent_eq (h : n.table.Alike u) :
    tokenContent n = tokenContent { n with table := u } := by
  funext owner chain rule
  simp only [tokenContent, TokenContent.of, TokenContent.reports, TokenContent.replacement_eq h,
    TokenContent.referenceReports_eq h]

theorem namedToken_eq (h : n.table.Alike u) : namedToken n = namedToken { n with table := u } := by
  funext name
  simp only [namedToken, tokenContent_eq h]

theorem resolve_eq (h : n.table.Alike u) : resolve n = resolve { n with table := u } := by
  funext name
  rw [resolve, resolve, namedToken_eq h]
  simp only [h.kind?_eq]
  rfl

mutual

theorem lowerWith_eq (h : n.table.Alike u) (owner : String)
    (sugar : Rule → StateM Lowering Expr) : (r : Rule) →
    lowerWith n owner sugar r = lowerWith { n with table := u } owner sugar r
  | .terminal _ => rfl
  | .token _ _ => by simp only [lowerWith, tokenContent_eq h]
  | .symbol _ => by simp only [lowerWith, resolve_eq h]
  | .seq members | .choice members => by
    simp only [lowerWith, lowerAllWith_eq h owner sugar members]
  | .repeated content .zeroOrMore => by simp only [lowerWith, lowerWith_eq h owner sugar content]
  | .repeated _ .oneOrMore | .optional _ => rfl
  | .prec _ _ content | .aliased content _ _ | .field _ content => by
    simp only [lowerWith, lowerWith_eq h owner sugar content]

theorem lowerAllWith_eq (h : n.table.Alike u) (owner : String)
    (sugar : Rule → StateM Lowering Expr) : (rules : List Rule) →
    lowerAllWith n owner sugar rules = lowerAllWith { n with table := u } owner sugar rules
  | [] => rfl
  | r :: rs => by
    simp only [lowerAllWith, lowerWith_eq h owner sugar r, lowerAllWith_eq h owner sugar rs]

end

theorem lower_eq (h : n.table.Alike u) : lower n = lower { n with table := u } := by
  funext owner rule
  rw [lower, lower, lowerWith_eq h]
  congr 1
  funext r
  exact lowerWith_eq h _ _ _

end Lowering

namespace NormalForm

section Lists

variable {n : Naming} {u : SymbolTable} (h : n.table.Alike u) {is js : List SymbolInfo}
  (infos : List.Forall₂ SymbolInfo.Alike is js)

include h infos

theorem lowerVariables_eq (inlined : OrderedMap String Inlined) :
    lowerVariables n inlined is = lowerVariables { n with table := u } inlined js := by
  induction infos with
  | nil => rfl
  | cons first _ ih =>
    simp only [lowerVariables, lowerBody, first.name, first.kind, ih, Lowering.namedToken_eq h,
      Lowering.lower_eq h]

theorem lowerTokens_eq : lowerTokens n is = lowerTokens { n with table := u } js := by
  induction infos with
  | nil => rfl
  | cons first _ ih =>
    simp only [lowerTokens, first.name, first.kind, ih, Lowering.namedToken_eq h]

theorem lowerHidden_eq (start : String) :
    lowerHidden n start is = lowerHidden { n with table := u } start js := by
  induction infos with
  | nil => rfl
  | cons first _ ih =>
    simp only [lowerHidden, first.name, first.kind, ih, Lowering.lower_eq h]

omit infos in
theorem lowerExtras_eq (place : Nat) (extras : List Rule) :
    lowerExtras n place extras = lowerExtras { n with table := u } place extras := by
  induction extras generalizing place with
  | nil => rfl
  | cons extra extras ih => simp only [lowerExtras, Lowering.lower_eq h, ih]

end Lists

variable {g g' : Grammar} {t u : SymbolTable}

theorem keptRules_alike (h : t.Alike u) (start : String) :
    List.Forall₂ SymbolInfo.Alike (keptRules t start) (keptRules u start) := by
  refine List.rel_append ?_ (List.rel_filter ?_ h.infos)
  · obtain ⟨found, found'⟩ | ⟨i, j, found, found', r⟩ := h.get?_cases start
    · rw [found, found']
      exact .nil
    · rw [found, found']
      exact .cons r .nil
  · intro i j r
    simp only [r.kind, r.name]

theorem supertypesOf_eq (h : g.Alike g') (tables : t.Alike u) :
    supertypesOf g t = supertypesOf g' u := by
  have structural : (t.infos.filter fun info => info.kind == .supertype).map SymbolInfo.name
      = (u.infos.filter fun info => info.kind == .supertype).map SymbolInfo.name := by
    refine map_eq_of_forall₂ (List.rel_filter ?_ tables.infos) fun _ _ r => r.name
    intro i j r
    simp only [r.kind]
  unfold supertypesOf
  simp only [structural, h.supertypes]
  congr 1
  funext m name
  obtain ⟨found, found'⟩ | ⟨i, j, found, found', r⟩ := tables.get?_cases name
  · rw [found, found']
  · rw [found, found']
    simp only [r.body.canonicalize]

theorem namingOf_eq (h : g.Alike g') (tables : t.Alike u) (start : String) :
    namingOf g' u start = { namingOf g t start with table := u } := by
  have vars : (keptRules t start).zipIdx.map (fun k => (k.1.name, k.2))
      = (keptRules u start).zipIdx.map fun k => (k.1.name, k.2) := by
    refine map_eq_of_forall₂ (forall₂_zipIdx (keptRules_alike tables start) 0) fun a b r => ?_
    rw [r.1.name, r.2]
  simp only [namingOf, inlinedRules, inlineRun_eq tables, vars, h.externals]

theorem partsRun_eq (h : g.Alike g') (keyed : t.Keyed) (keyed' : u.Keyed) (tables : t.Alike u)
    (start : String) : partsRun g t start = partsRun g' u start := by
  have same : (namingOf g t start).table.Alike u := tables
  rw [partsRun, partsRun, ← extrasRun_eq h keyed keyed' tables, namingOf_eq h tables, inlinedRules,
    inlinedRules, ← inlineRun_eq tables]
  congr 1
  simp only [lowerParts, h.word, lowerVariables_eq same (keptRules_alike tables start),
    lowerExtras_eq same, Lowering.resolve_eq same, lowerTokens_eq same same.infos,
    lowerHidden_eq same same.infos]

/-- Normal forms of grammars that look alike have the same parts and the same reports. -/
theorem ofGrammar_alike (h : g.Alike g') (keyed : t.Keyed) (keyed' : u.Keyed) (tables : t.Alike u)
    (start : String) : ofGrammar g' u start
      = ({ (ofGrammar g t start).1 with table := u }, (ofGrammar g t start).2) := by
  rw [ofGrammar_eq, ofGrammar_eq, lexiconOf, lexiconOf, ← partsRun_eq h keyed keyed' tables,
    ← extrasRun_eq h keyed keyed' tables, ← supertypesOf_eq h tables, namingOf_eq h tables, h.name,
    h.conflicts, h.precedences]

end NormalForm

namespace NormalForm

variable (n : NormalForm) {u : SymbolTable}

mutual

theorem nodes_eq : (e : Expr) → ({ n with table := u } : NormalForm).nodes e = n.nodes e
  | .symbol _ | .aliased _ _ _ => rfl
  | .seq members | .choice members => nodesAll_eq members
  | .repeated content | .prec _ _ content | .field _ content => nodes_eq content

theorem nodesAll_eq : (es : List Expr) →
    ({ n with table := u } : NormalForm).nodesAll es = n.nodesAll es
  | [] => rfl
  | e :: es => by rw [nodesAll, nodesAll, nodes_eq e, nodesAll_eq es]

end

mutual

theorem fieldCounts_eq : (e : Expr) →
    ({ n with table := u } : NormalForm).fieldCounts e = n.fieldCounts e
  | .symbol _ => by rw [fieldCounts, fieldCounts]
  | .seq members => by
    rw [fieldCounts, fieldCounts, sequenceCounts, sequenceCounts, countsOfEach_eq members]
  | .choice members => by rw [fieldCounts, fieldCounts, countsOfEach_eq members]
  | .repeated content => by rw [fieldCounts, fieldCounts, fieldCounts_eq content]
  | .prec _ _ content | .aliased content _ _ => by
    rw [fieldCounts, fieldCounts, fieldCounts_eq content]
  | .field name content => by rw [fieldCounts, fieldCounts, fieldCounts_eq content, nodes_eq]

theorem countsOfEach_eq : (es : List Expr) →
    ({ n with table := u } : NormalForm).countsOfEach es = n.countsOfEach es
  | [] => by rw [countsOfEach, countsOfEach]
  | e :: es => by rw [countsOfEach, countsOfEach, fieldCounts_eq e, countsOfEach_eq es]

end

theorem aliases_eq : ({ n with table := u } : NormalForm).aliases = n.aliases := by
  have each : ({ n with table := u } : NormalForm).addAlias = n.addAlias := by
    funext m a
    simp only [addAlias, nodes_eq]
  rw [aliases, aliases, each]
  rfl

theorem ofNormalForm_eq (levels : Levels) (verdicts : List Disambiguation)
    (conflicts : Conflicts) (warnings : List Diagnostic) :
    CompiledGrammar.ofNormalForm { n with table := u } levels verdicts conflicts warnings
      = CompiledGrammar.ofNormalForm n levels verdicts conflicts warnings := by
  simp only [CompiledGrammar.ofNormalForm, fieldsOf, fieldCounts_eq, aliases_eq]

/-- Of the table the checks read only names and references. -/
theorem reports_eq (tables : n.table.Alike u) (verdicts : List Disambiguation)
    (conflicts : Conflicts) (start : String) :
    Validation.reports { n with table := u } verdicts conflicts start
      = Validation.reports n verdicts conflicts start := by
  have listed (t : SymbolTable) (reached : List String) :
      (t.infos.filter fun info => !reached.contains info.name).map
          (fun info => Diagnostic.named .unreachableRule info.name [])
        = ((t.infos.map SymbolInfo.name).filter fun name => !reached.contains name).map
          fun name => Diagnostic.named .unreachableRule name [] := by
    rw [List.filter_map, List.map_map]
    rfl
  have unreachable : Validation.unreachableReports { n with table := u } start
      = Validation.unreachableReports n start := by
    simp only [Validation.unreachableReports, listed, tables.names_eq,
      tables.refersAlike.referenceGraph_eq]
    rfl
  rw [Validation.reports, unreachable]
  rfl

end NormalForm

variable {g g' : Grammar}

theorem startRule_eq (h : g.Alike g') {t u : SymbolTable} (tables : t.Alike u)
    (settings : Settings) : startRule g settings t = startRule g' settings u := by
  have infos := tables.infos
  rw [startRule, startRule, tables.refersAlike.contains_eq, h.inlined]
  generalize t.infos = is, u.infos = js at infos ⊢
  cases infos with
  | nil => rfl
  | cons first _ => simp only [List.head?_cons, first.name]

theorem endStage_bind {α β : Type} (stage : Stage) (reports : List Diagnostic) (result : α)
    (next : α → Except Failure β) : (endStage stage reports result >>= next)
      = if Diagnostic.hasErrors reports then .error ⟨stage, reports⟩ else next result := by
  unfold endStage
  split <;> rfl

/-- The stages after the normal form do not depend on more of the table than that. -/
theorem finish_eq (settings : Settings) (n : NormalForm) (start : String)
    (reports : List Diagnostic) {u : SymbolTable} (tables : n.table.Alike u) :
    (Normalized.disambiguate ⟨settings, { n with table := u }, start, reports⟩
        >>= Disambiguated.validate)
      = (Normalized.disambiguate ⟨settings, n, start, reports⟩ >>= Disambiguated.validate) := by
  rw [Grammar.disambiguate_eq, Grammar.disambiguate_eq, endStage_bind, endStage_bind]
  refine if_congr Iff.rfl rfl ?_
  have same : (n.resolveLevels (Levels.inEffect n.precedences settings.levels).1).table.Alike u :=
    tables
  unfold Disambiguated.validate
  dsimp only
  rw [← NormalForm.ofNormalForm_eq (n.resolveLevels _) (u := u), ← NormalForm.reports_eq _ same]
  rfl

/-- Grammars that look alike are compiled to the same compiled grammar, or fail at the same stage
with the same reports. -/
theorem compile_alike (h : g.Alike g') (settings : Settings) :
    g.compile settings = g'.compile settings := by
  obtain ⟨tables, names⟩ := Symbols.resolve_alike h
  unfold Grammar.compile
  simp only [Grammar.resolve, ← startRule_eq h tables, ← names]
  cases startRule g settings (Symbols.resolve g).1 with
  | error report => rfl
  | ok start =>
    simp only
    rw [endStage_bind, endStage_bind]
    refine if_congr Iff.rfl rfl ?_
    rw [Resolved.normalize_eq, Resolved.normalize_eq]
    dsimp only
    rw [NormalForm.ofGrammar_alike h (Symbols.keyed_resolve g) (Symbols.keyed_resolve g') tables]
    rw [endStage_bind, endStage_bind]
    refine if_congr Iff.rfl rfl ?_
    exact (finish_eq settings _ start _ tables).symm

namespace Grammar

/-- One optional part or one repetition of one or more is written out, in the body of a rule or in
an extra. -/
inductive Desugars (g : Grammar) : Grammar → Prop where
  | body {before after d body} (rules : g.rules = before ++ d :: after)
      (inner : d.body.Desugars body) :
      Desugars g { g with rules := before ++ { d with body } :: after }
  | extra {before after extra extra'} (extras : g.extras = before ++ extra :: after)
      (inner : extra.Desugars extra') :
      Desugars g { g with extras := before ++ extra' :: after }

theorem Alike.refl_rules (ds : List Definition) : List.Forall₂ Definition.Alike ds ds :=
  List.forall₂_same.2 fun d _ => ⟨rfl, rfl, .refl d.body⟩

theorem Alike.refl_extras (rs : List Rule) : List.Forall₂ Rule.Alike rs rs :=
  List.forall₂_same.2 fun r _ => .refl r

theorem Desugars.alike (h : g.Desugars g') : g.Alike g' := by
  cases h with
  | @body before after d body rules inner =>
    refine ⟨rfl, ?_, Alike.refl_extras _, rfl, rfl, rfl, rfl, rfl, rfl⟩
    rw [rules]
    exact List.rel_append (Alike.refl_rules before)
      (.cons ⟨rfl, rfl, inner.alike⟩ (Alike.refl_rules after))
  | @extra before after extra extra' extras inner =>
    refine ⟨rfl, Alike.refl_rules _, ?_, rfl, rfl, rfl, rfl, rfl, rfl⟩
    rw [extras]
    exact List.rel_append (Alike.refl_extras before) (.cons inner.alike (Alike.refl_extras after))

/-- Writing out any number of optional parts and repetitions of one or more changes nothing: the
same grammar is compiled, with the same warnings, or the same stage fails with the same reports. -/
theorem compile_eq_of_desugars (h : Relation.ReflTransGen Desugars g g') (settings : Settings) :
    g.compile settings = g'.compile settings := by
  induction h with
  | refl => rfl
  | tail _ step ih => rw [ih, compile_alike step.alike settings]

/-- Lists of letters that may be closed by a mark, with blanks between them. -/
def letterList : Grammar where
  name := "letters"
  rules := [
    ⟨"list", .seq [.repeated (.symbol "letter") .oneOrMore, .optional (.symbol "mark")], false⟩,
    ⟨"letter", .terminal (.literal "a"), false⟩,
    ⟨"mark", .terminal (.literal "."), true⟩]
  extras := [.token (.repeated (.terminal (.literal " ")) .oneOrMore) false]
  precedences := []
  conflicts := []
  externals := []
  inlined := []
  supertypes := []
  word := none

def letterListWritten : Grammar where
  name := "letters"
  rules := [
    ⟨"list", .seq [.seq [.symbol "letter", .repeated (.symbol "letter") .zeroOrMore],
      .choice [.symbol "mark", .blank]], false⟩,
    ⟨"letter", .terminal (.literal "a"), false⟩,
    ⟨"mark", .terminal (.literal "."), true⟩]
  extras := [.token (.seq [.terminal (.literal " "),
    .repeated (.terminal (.literal " ")) .zeroOrMore]) false]
  precedences := []
  conflicts := []
  externals := []
  inlined := []
  supertypes := []
  word := none

theorem desugars_letterList : Relation.ReflTransGen Desugars letterList letterListWritten :=
  .head (@Desugars.body letterList [] _ ⟨"list", _, false⟩ _ rfl
      (.inSeq [] [.optional (.symbol "mark")] (.repeated (.symbol "letter"))))
    (.head (@Desugars.body _ [] _ ⟨"list", _, false⟩ _ rfl
      (.inSeq [.seq [.symbol "letter", .repeated (.symbol "letter") .zeroOrMore]] []
        (.optional (.symbol "mark"))))
    (.single (@Desugars.extra _ [] [] _ _ rfl
      (.inToken false (.repeated (.terminal (.literal " ")))))))

theorem isOk_letterList : (letterList.compile .default).isOk = true := by cbv

theorem compile_letterListWritten : Relation.ReflTransGen Desugars letterList letterListWritten
    ∧ letterList.compile .default = letterListWritten.compile .default
    ∧ (letterList.compile .default).isOk = true :=
  ⟨desugars_letterList, compile_eq_of_desugars desugars_letterList .default, isOk_letterList⟩

end Grammar

end Productions
