import Productions.Proofs.Stages
import Productions.Proofs.Symbols.Kinds

/-! Kinds and canonical form. Rules are classified as they are written, before they are brought to
canonical form. References, fields and recursion are the same in both, but a token or a choice
between names may come to light only in the canonical body, under single members and repeated or
nested alternatives. The rules that are of the same kind in both are told apart here. -/
namespace Productions

def Definition.canonical (d : Definition) : Definition := { d with body := d.body.canonicalize }

namespace Grammar

def canonical (g : Grammar) : Grammar := { g with rules := g.rules.map Definition.canonical }

variable {g : Grammar} {name : String} {d : Definition} {k : SymbolKind}

theorem get?_canonical (g : Grammar) (name : String) :
    g.canonical.get? name = (g.get? name).map Definition.canonical := by
  rw [get?, canonical, List.find?_map]
  rfl

theorem get?_canonical_of_get? (rule : g.get? name = some d) :
    g.canonical.get? name = some d.canonical := by
  rw [get?_canonical, rule, Option.map_some]

theorem refersTo_canonical : g.canonical.RefersTo = g.RefersTo := by
  funext a b
  simp only [RefersTo, get?_canonical, Option.map_eq_some_iff, eq_iff_iff]
  constructor
  · rintro ⟨_, ⟨d, rule, rfl⟩, ref⟩
    exact ⟨d, rule, (Rule.mem_occurrences_canonicalize d.body).1 ref⟩
  · rintro ⟨d, rule, ref⟩
    exact ⟨_, ⟨d, rule, rfl⟩, (Rule.mem_occurrences_canonicalize d.body).2 ref⟩

/-- Rules that are lexical as written stay so. -/
theorem IsLexical.canonical (h : g.IsLexical name) : g.canonical.IsLexical name := by
  induction h with
  | token rule shaped => exact .token (get?_canonical_of_get? rule) shaped.canonicalize
  | @plain name d rule fieldless apart refs ih =>
    apply IsLexical.plain (get?_canonical_of_get? rule)
    · exact fun field => fieldless (Rule.carriesField_canonicalize.1 field)
    · rwa [refersTo_canonical]
    · intro ref mem inner
      exact ih ref ((Rule.mem_occurrences_canonicalize d.body).1 mem) inner

variable (g) in
/-- What a rule has to be for canonical form to leave its kind alone. -/
inductive KeepsKind (d : Definition) : Prop where
  | hidden (hides : g.Hides d)
  | token (shaped : d.body.TokenShape)
  | declared (declared : d.name ∈ g.supertypes)
  | lexical (unshaped : ¬ d.body.canonicalize.TokenShape) (lexical : g.IsLexical d.name)
  | other (unshaped : ¬ d.body.canonicalize.TokenShape) (other : ¬ g.canonical.IsLexical d.name)
      (choice : d.body.canonicalize.SymbolChoice ↔ d.body.SymbolChoice)

/-- Apart from the kinds that are decided first, keeping its kind is a matter of what else a rule
may be found to be in canonical form. -/
theorem KeepsKind.remains (h : g.KeepsKind d) (visible : ¬ g.Hides d)
    (unshaped : ¬ d.body.TokenShape) (undeclared : d.name ∉ g.supertypes) :
    ¬ d.body.canonicalize.TokenShape ∧ (g.IsLexical d.name ∨ ¬ g.canonical.IsLexical d.name
      ∧ (d.body.canonicalize.SymbolChoice ↔ d.body.SymbolChoice)) := by
  cases h with
  | hidden hides => exact absurd hides visible
  | token shaped => exact absurd shaped unshaped
  | declared declared => exact absurd declared undeclared
  | lexical unshaped' lexical => exact ⟨unshaped', .inl lexical⟩
  | other unshaped' other choice => exact ⟨unshaped', .inr ⟨other, choice⟩⟩

theorem KeepsKind.hasKind (keeps : g.KeepsKind d) (own : g.HasKind d k)
    (valid : d.name ∈ g.supertypes → d.body.SymbolChoice) :
    g.canonical.HasKind d.canonical k := by
  cases own with
  | hidden hides => exact .hidden hides
  | token visible shaped => exact .token visible shaped.canonicalize
  | declared visible _ declared =>
    exact .declared visible (valid declared).not_tokenShape_canonicalize declared
  | lexical visible unshaped undeclared lexical =>
    obtain ⟨unshaped', -⟩ := keeps.remains visible unshaped undeclared
    exact .lexical visible unshaped' undeclared lexical.canonical
  | choice visible unshaped undeclared other choice =>
    obtain ⟨unshaped', lexical | ⟨other', same⟩⟩ := keeps.remains visible unshaped undeclared
    · exact absurd lexical other
    · exact .choice visible unshaped' undeclared other' (same.2 choice)
  | nonterminal visible unshaped undeclared other single =>
    obtain ⟨unshaped', lexical | ⟨other', same⟩⟩ := keeps.remains visible unshaped undeclared
    · exact absurd lexical other
    · exact .nonterminal visible unshaped' undeclared other' fun choice => single (same.1 choice)

theorem keepsKind_of_hasKind (own : g.HasKind d k) (own' : g.canonical.HasKind d.canonical k) :
    g.KeepsKind d := by
  cases own with
  | hidden hides => exact .hidden hides
  | token _ shaped => exact .token shaped
  | declared _ _ declared => exact .declared declared
  | lexical _ _ _ lexical =>
    cases own' with
    | lexical _ unshaped _ _ => exact .lexical unshaped lexical
  | choice _ _ undeclared _ choice =>
    cases own' with
    | declared _ _ declared => exact absurd declared undeclared
    | choice _ unshaped _ other choice' =>
      exact .other unshaped other (iff_of_true choice' choice)
  | nonterminal _ _ _ _ single =>
    cases own' with
    | nonterminal _ unshaped _ other single' =>
      exact .other unshaped other (iff_of_false single' single)

/-- Declared supertypes that are resolved are choices between names. -/
theorem symbolChoice_of_mem_supertypes {settings : Settings} {r : Resolved}
    (resolved : g.resolve settings = .ok r) (rule : g.get? name = some d)
    (declared : name ∈ g.supertypes) : d.body.SymbolChoice := by
  have quiet := (resolve_eq_ok resolved).1
  simp only [Symbols.resolve, List.append_eq_nil_iff] at quiet
  have valid : Symbols.supertypeReports g (Symbols.resolve g).1 = [] := quiet.1.2
  obtain ⟨index, get⟩ := get?_declared_of_get? rule
  have none := List.filterMap_eq_nil_iff.1 valid name declared
  rw [Symbols.get?_resolve, get, Option.map_some] at none
  by_cases choice : d.body.isSymbolChoice = true
  · exact Rule.isSymbolChoice_iff.1 choice
  · simp [Symbols.declare, choice] at none

/-- Among the rules of a grammar that resolves, canonical form changes the kind of those only in
which it brings to light a token, lexical material, or a choice between names, or leaves a single
one of such a choice. -/
theorem kind_canonical_eq_iff {settings : Settings} {r : Resolved}
    (resolved : g.resolve settings = .ok r) (rule : g.get? name = some d) :
    (Symbols.resolve g.canonical).1.kind? name = (Symbols.resolve g).1.kind? name
      ↔ g.KeepsKind d := by
  have own := hasKind_kindOf g 0 d
  have own' := hasKind_kindOf g.canonical 0 d.canonical
  rw [kind?_eq rule own, kind?_eq (get?_canonical_of_get? rule) own', Option.some_inj]
  constructor
  · intro same
    rw [same] at own'
    exact keepsKind_of_hasKind own own'
  · intro keeps
    have valid (declared : d.name ∈ g.supertypes) : d.body.SymbolChoice :=
      symbolChoice_of_mem_supertypes resolved rule (name_of_get? rule ▸ declared)
    exact own'.unique (keeps.hasKind own valid)

/-- Phrases of one or two words. A word is a single letter, written as a sequence. -/
def phrases : Grammar where
  name := "phrases"
  rules := [
    ⟨"phrase", .seq [.symbol "word", .optional (.symbol "word")], false⟩,
    ⟨"word", .seq [.terminal (.literal "x")], false⟩]
  extras := []
  precedences := []
  conflicts := []
  externals := []
  inlined := []
  supertypes := []
  word := none

theorem kind_canonical_eq_phrase : (∃ r, phrases.resolve .default = .ok r)
    ∧ (Symbols.resolve phrases.canonical).1.kind? "phrase"
      = (Symbols.resolve phrases).1.kind? "phrase" := by
  obtain ⟨r, resolved⟩ : ∃ r, phrases.resolve .default = .ok r := exists_ok_of_isOk (by cbv)
  have lexical : phrases.IsLexical "phrase" := isLexical_of_kind (by cbv)
  refine ⟨⟨r, resolved⟩, (kind_canonical_eq_iff resolved rfl).2 (.lexical ?_ lexical)⟩
  rw [← Rule.isTokenShaped_iff]
  decide

/-- A sequence of a single terminal is no token as written, and one in canonical form. -/
theorem exists_kind_canonical_ne : (∃ r, phrases.resolve .default = .ok r)
    ∧ (Symbols.resolve phrases).1.kind? "word" = some .lexical
    ∧ (Symbols.resolve phrases.canonical).1.kind? "word" = some .token :=
  ⟨exists_ok_of_isOk (by cbv), by cbv, by cbv⟩

end Grammar

end Productions
