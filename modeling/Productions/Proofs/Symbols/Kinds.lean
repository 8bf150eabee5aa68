import Productions.Proofs.Reordering.Resolution
import Productions.Proofs.Symbols.Shapes
import Productions.Proofs.Unreachable

/-! Kinds of rules, told from the grammar alone. Rules are classified once each, in the order of the
components of their references, yet which of them are lexical has a meaning without any order, and
with it the kind of every rule. -/
namespace Productions

open Relation

namespace Grammar

variable (g : Grammar)

def DeclaresExternal (name : String) : Prop := .symbol name ∈ g.externals

def Hides (d : Definition) : Prop := d.hidden = true ∨ d.name ∈ g.inlined

/-- A lexical rule: one shaped like a token, or one without fields that does not reach itself
through references and refers to lexical rules and declared external tokens only. -/
inductive IsLexical : String → Prop where
  | token {name d} (rule : g.get? name = some d) (shaped : d.body.TokenShape) : IsLexical name
  | plain {name d} (rule : g.get? name = some d) (fieldless : ¬ d.body.CarriesField)
      (apart : ¬ TransGen g.RefersTo name name)
      (refs : ∀ ref ∈ d.body.occurrences, ¬ g.DeclaresExternal ref → IsLexical ref) :
      IsLexical name

/-- The kind of a rule. The first case that applies decides. -/
inductive HasKind (d : Definition) : SymbolKind → Prop where
  | hidden (hides : g.Hides d) : HasKind d .hidden
  | token (visible : ¬ g.Hides d) (shaped : d.body.TokenShape) : HasKind d .token
  | declared (visible : ¬ g.Hides d) (unshaped : ¬ d.body.TokenShape)
      (declared : d.name ∈ g.supertypes) : HasKind d .supertype
  | lexical (visible : ¬ g.Hides d) (unshaped : ¬ d.body.TokenShape)
      (undeclared : d.name ∉ g.supertypes) (lexical : g.IsLexical d.name) : HasKind d .lexical
  | choice (visible : ¬ g.Hides d) (unshaped : ¬ d.body.TokenShape)
      (undeclared : d.name ∉ g.supertypes) (other : ¬ g.IsLexical d.name)
      (choice : d.body.SymbolChoice) : HasKind d .supertype
  | nonterminal (visible : ¬ g.Hides d) (unshaped : ¬ d.body.TokenShape)
      (undeclared : d.name ∉ g.supertypes) (other : ¬ g.IsLexical d.name)
      (single : ¬ d.body.SymbolChoice) : HasKind d .nonterminal

variable {g} {name : String} {d : Definition}

theorem name_of_get? (rule : g.get? name = some d) : d.name = name := by
  simpa using List.find?_some rule

theorem HasKind.unique {k k' : SymbolKind} (h : g.HasKind d k) (h' : g.HasKind d k') : k = k' := by
  cases h <;> cases h' <;> first | rfl | contradiction

theorem edge_iff {a b : String} : (Symbols.referenceGraph (Symbols.declared g)).Edge a b
    ↔ g.RefersTo a b ∧ g.IsRule b := by
  rw [Symbols.edge_referenceGraph_iff, SymbolTable.contains, OrderedMap.contains_iff,
    Symbols.mem_keys_declared]
  constructor
  · rintro ⟨info, get, ref, known⟩
    obtain ⟨d, index, rule, rfl⟩ := Symbols.exists_of_get?_declared get
    exact ⟨⟨d, rule, OrderedSet.mem_ofList.1 ref⟩, known⟩
  · rintro ⟨⟨d, rule, ref⟩, known⟩
    obtain ⟨index, get⟩ := get?_declared_of_get? rule
    exact ⟨_, get, OrderedSet.mem_ofList.2 ref, known⟩

theorem RefersTo.isRule {a b : String} (h : g.RefersTo a b) : g.IsRule a := by
  obtain ⟨d, rule, -⟩ := h
  exact Option.isSome_of_eq_some rule

/-- Where references lead to a rule, every name on the way is that of a rule. -/
theorem transGen_edge {a b : String} (path : TransGen g.RefersTo a b)
    (known : g.IsRule b) :
    TransGen (Symbols.referenceGraph (Symbols.declared g)).Edge a b := by
  induction path using TransGen.head_induction_on with
  | single step => exact .single (edge_iff.2 ⟨step, known⟩)
  | head step rest ih =>
    obtain ⟨_, next, -⟩ := TransGen.head'_iff.1 rest
    exact .head (edge_iff.2 ⟨step, next.isRule⟩) ih

theorem reachesItself_iff : TransGen (Symbols.referenceGraph (Symbols.declared g)).Edge name name
    ↔ TransGen g.RefersTo name name := by
  constructor
  · exact TransGen.mono (fun _ _ edge => (edge_iff.1 edge).1) _ _
  · intro cycle
    obtain ⟨_, first, -⟩ := TransGen.head'_iff.1 cycle
    exact transGen_edge cycle first.isRule

theorem contains_externals_declared : (Symbols.declared g).externals.contains name = true
    ↔ g.DeclaresExternal name := by
  have named (rule : Rule) : Symbols.externalName? rule = some name ↔ rule = .symbol name := by
    cases rule <;> simp [Symbols.externalName?]
  simp only [Symbols.declared, OrderedSet.contains_iff, OrderedSet.mem_ofList, List.mem_filterMap,
    named, exists_eq_right, DeclaresExternal]

theorem isTokenRule_declared (rule : g.get? name = some d) :
    Symbols.isTokenRule (Symbols.declared g) name = true ↔ d.body.TokenShape := by
  obtain ⟨index, get⟩ := get?_declared_of_get? rule
  rw [Symbols.isTokenRule, get, Option.any_some, Symbols.declare, Rule.isTokenShaped_iff]

/-- The lexical rules of the table are those of the grammar. -/
theorem isLexical_declared_iff :
    Symbols.IsLexical (Symbols.declared g) name ↔ g.IsLexical name := by
  constructor
  · intro lexical
    induction lexical with
    | @shaped name token =>
      have known := (Symbols.IsLexical.shaped token).contains
      obtain ⟨info, get⟩ := SymbolTable.contains_iff.1 known
      obtain ⟨d, index, rule, rfl⟩ := Symbols.exists_of_get?_declared get
      exact .token rule ((isTokenRule_declared rule).1 token)
    | plain get fieldless apart _ ih =>
      obtain ⟨d, index, rule, rfl⟩ := Symbols.exists_of_get?_declared get
      apply IsLexical.plain rule
      · rw [← Rule.hasField_iff, Bool.not_eq_true]
        exact fieldless
      · rwa [← reachesItself_iff]
      · intro ref mem inside
        apply ih ref (OrderedSet.mem_ofList.2 mem)
        rwa [← contains_externals_declared, Bool.not_eq_true] at inside
  · intro lexical
    induction lexical with
    | token rule shaped => exact .shaped ((isTokenRule_declared rule).2 shaped)
    | @plain name d rule fieldless apart _ ih =>
      obtain ⟨index, get⟩ := get?_declared_of_get? rule
      apply Symbols.IsLexical.plain get
      · rwa [← Rule.hasField_iff, Bool.not_eq_true] at fieldless
      · rwa [reachesItself_iff]
      · intro ref mem inside
        apply ih ref (OrderedSet.mem_ofList.1 mem)
        rw [← contains_externals_declared, inside]
        exact Bool.false_ne_true

theorem hidden_declare_iff {index : Nat} :
    (Symbols.declare g index d).kind = .hidden ↔ g.Hides d := by
  rw [Symbols.declare_kind_eq_hidden_iff, Bool.or_eq_true, List.contains_iff_mem, Hides]

/-- The kind that a rule is given is the one it has. -/
theorem hasKind_kindOf (g : Grammar) (index : Nat) (d : Definition) : g.HasKind d
    (Symbols.kindOf g.supertypes
      (Symbols.lexicalRules (Symbols.declared g) (Symbols.referenceGraph (Symbols.declared g)))
      (Symbols.declare g index d)) := by
  have lexical : OrderedSet.contains (Symbols.lexicalRules (Symbols.declared g)
      (Symbols.referenceGraph (Symbols.declared g))) d.name = true ↔ g.IsLexical d.name := by
    rw [OrderedSet.contains_iff, Symbols.mem_lexicalRules_iff, isLexical_declared_iff]
  -- the tests of the classification, one after the other
  rw [Symbols.kindOf]
  split <;> rename_i visible
  · exact .hidden (hidden_declare_iff.1 visible)
  rw [hidden_declare_iff] at visible
  split <;> rename_i unshaped
  · exact .token visible (Rule.isTokenShaped_iff.1 unshaped)
  replace unshaped : ¬ d.body.TokenShape := fun h => unshaped (Rule.isTokenShaped_iff.2 h)
  split <;> rename_i undeclared
  · exact .declared visible unshaped (List.contains_iff_mem.1 undeclared)
  replace undeclared : d.name ∉ g.supertypes := fun h => undeclared (List.contains_iff_mem.2 h)
  split <;> rename_i other
  · exact .lexical visible unshaped undeclared (lexical.1 other)
  replace other : ¬ g.IsLexical d.name := fun h => other (lexical.2 h)
  split <;> rename_i single
  · exact .choice visible unshaped undeclared other (Rule.isSymbolChoice_iff.1 single)
  · exact .nonterminal visible unshaped undeclared other
      fun h => single (Rule.isSymbolChoice_iff.2 h)

theorem kind?_eq (rule : g.get? name = some d) {k : SymbolKind} (kind : g.HasKind d k) :
    (Symbols.resolve g).1.kind? name = some k := by
  obtain ⟨index, get⟩ := get?_declared_of_get? rule
  rw [SymbolTable.kind?, Symbols.get?_resolve, get, Option.map_some, Option.map_some]
  exact congrArg some ((hasKind_kindOf g index d).unique kind)

theorem exists_of_kind? {k : SymbolKind} (kind : (Symbols.resolve g).1.kind? name = some k) :
    ∃ d, g.get? name = some d ∧ g.HasKind d k := by
  obtain ⟨info, get, -⟩ := Option.map_eq_some_iff.1 kind
  obtain ⟨d, rule, -, -⟩ := Symbols.describes_of_get? get
  have own := hasKind_kindOf g 0 d
  obtain rfl := Option.some.inj ((kind?_eq rule own).symm.trans kind)
  exact ⟨d, rule, own⟩

theorem isLexical_of_kind (lexical : (Symbols.resolve g).1.kind? name = some .lexical) :
    g.IsLexical name := by
  obtain ⟨d, rule, kind⟩ := exists_of_kind? lexical
  cases kind with
  | lexical _ _ _ lexical =>
    rwa [← name_of_get? rule]

/-- A name has a kind exactly if it is that of a rule, and then the kind of this rule. Where names
repeat, the first rule of a name counts. -/
theorem kind_eq_some_iff (g : Grammar) (name : String) (k : SymbolKind) :
    (Symbols.resolve g).1.kind? name = some k ↔ ∃ d, g.get? name = some d ∧ g.HasKind d k := by
  constructor
  · exact exists_of_kind?
  · rintro ⟨d, rule, kind⟩
    exact kind?_eq rule kind

end Grammar

end Productions
