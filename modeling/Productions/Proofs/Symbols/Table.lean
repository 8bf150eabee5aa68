import Productions.Proofs.Derivation.Rules
import Productions.Symbols.Resolution

/-! The table of symbols agrees with the grammar it was made from: each name has the body of its
first rule, and without reports all references are to rules or external tokens. -/
namespace Productions

/-- Every symbol stands in the table under its own name. -/
def SymbolTable.Keyed (t : SymbolTable) : Prop := ∀ e ∈ t.rules.entries, e.2.name = e.1

namespace SymbolTable

variable {t : SymbolTable}

theorem Keyed.name_eq (h : t.Keyed) {name : String} {info : SymbolInfo}
    (get : t.get? name = some info) : info.name = name :=
  h _ (OrderedMap.get?_eq_some_iff.1 get)

theorem mem_infos {info : SymbolInfo} : info ∈ t.infos ↔ ∃ name, t.get? name = some info := by
  simp only [infos, OrderedMap.values, List.mem_map, get?, OrderedMap.get?_eq_some_iff]
  constructor
  · rintro ⟨⟨name, _⟩, mem, rfl⟩
    exact ⟨name, mem⟩
  · rintro ⟨name, mem⟩
    exact ⟨_, mem, rfl⟩

theorem Keyed.get?_name (h : t.Keyed) {info : SymbolInfo} (mem : info ∈ t.infos) :
    t.get? info.name = some info := by
  obtain ⟨name, get⟩ := mem_infos.1 mem
  rwa [h.name_eq get]

theorem Keyed.names_eq (h : t.Keyed) : t.infos.map SymbolInfo.name = t.rules.keys := by
  simp only [infos, OrderedMap.values, OrderedMap.keys, List.map_map]
  exact List.map_congr_left h

theorem contains_iff {name : String} : t.contains name = true ↔ ∃ info, t.get? name = some info := by
  rw [contains, OrderedMap.contains_iff, ← OrderedMap.get?_isSome_iff, Option.isSome_iff_exists]
  rfl

end SymbolTable

namespace Symbols

theorem get?_foldl_declare (g : Grammar) (name : String) (ds : List (Definition × Nat))
    (m : OrderedMap String SymbolInfo) :
    (ds.foldl (fun m d => m.insertIfNew d.1.name (declare g d.2 d.1)) m).get? name
      = (m.get? name).or ((ds.find? fun d => d.1.name == name).map fun d => declare g d.2 d.1) := by
  induction ds generalizing m with
  | nil => simp
  | cons d ds ih =>
    rw [List.foldl_cons, ih, OrderedMap.get?_insertIfNew, Option.or_assoc, List.find?_cons]
    congr 1
    by_cases h : name = d.1.name
    · simp [h]
    · have : (d.1.name == name) = false := by simp [Ne.symm h]
      simp [h, this]

theorem get?_declared (g : Grammar) (name : String) :
    (declared g).get? name
      = (g.rules.zipIdx.find? fun d => d.1.name == name).map fun d => declare g d.2 d.1 := by
  simp only [declared, SymbolTable.get?, declaredRules]
  rw [get?_foldl_declare]
  rfl

theorem find?_zipIdx {α : Type} (p : α → Bool) (l : List α) (k : Nat) :
    ((l.zipIdx k).find? fun e => p e.1).map Prod.fst = l.find? p := by
  induction l generalizing k with
  | nil => rfl
  | cons a l ih =>
    rw [List.zipIdx_cons, List.find?_cons, List.find?_cons]
    cases h : p a with
    | true => rfl
    | false => exact ih (k + 1)

theorem get?_eq_find?_zipIdx (g : Grammar) (name : String) :
    g.get? name = (g.rules.zipIdx.find? fun d => d.1.name == name).map Prod.fst :=
  (find?_zipIdx (fun d : Definition => d.name == name) g.rules 0).symm

theorem get?_resolve (g : Grammar) (name : String) :
    (resolve g).1.get? name = ((declared g).get? name).map fun info =>
      { info with
        kind := kindOf g.supertypes (lexicalRules (declared g) (referenceGraph (declared g))) info
        nullable := (Rule.nullableNames (declared g).bodies).contains name } := by
  simp only [resolve, classify, SymbolTable.get?]
  rw [OrderedMap.get?_mapValues]

/-- What the table says about a name is what the grammar says about it. -/
structure Describes (g : Grammar) (d : Definition) (info : SymbolInfo) : Prop where
  name : info.name = d.name
  body : info.body = d.body
  refs : info.refs = d.body.symbols
  hidden : info.kind = .hidden ↔ (d.hidden || g.inlined.contains d.name) = true
  token : info.kind = .token ↔ g.isTokenRule d = true

theorem kindOf_eq_hidden_iff {supertypes : List String} {lexical : OrderedSet String}
    {info : SymbolInfo} : kindOf supertypes lexical info = .hidden ↔ info.kind = .hidden := by
  unfold kindOf
  constructor
  · intro h
    split at h <;> rename_i hidden
    · exact hidden
    · split at h
      · cases h
      · split at h
        · cases h
        · split at h
          · cases h
          · split at h <;> cases h
  · intro h
    rw [if_pos h]

theorem kindOf_eq_token_iff {supertypes : List String} {lexical : OrderedSet String}
    {info : SymbolInfo} :
    kindOf supertypes lexical info = .token
      ↔ info.kind ≠ .hidden ∧ info.body.isTokenShaped = true := by
  unfold kindOf
  constructor
  · intro h
    split at h <;> rename_i hidden
    · cases h
    · split at h <;> rename_i shaped
      · exact ⟨hidden, shaped⟩
      · split at h
        · cases h
        · split at h
          · cases h
          · split at h <;> cases h
  · rintro ⟨hidden, shaped⟩
    rw [if_neg hidden, if_pos shaped]

theorem declare_kind_eq_hidden_iff {g : Grammar} {index : Nat} {d : Definition} :
    (declare g index d).kind = .hidden ↔ (d.hidden || g.inlined.contains d.name) = true := by
  simp only [declare]
  split <;> rename_i hidden
  · exact iff_of_true rfl hidden
  · exact iff_of_false nofun hidden

theorem describes_kindOf (g : Grammar) (index : Nat) (d : Definition) (lexical : OrderedSet String)
    (nullable : Bool) :
    Describes g d { declare g index d with
      kind := kindOf g.supertypes lexical (declare g index d), nullable } where
  name := rfl
  body := rfl
  refs := rfl
  hidden := kindOf_eq_hidden_iff.trans declare_kind_eq_hidden_iff
  token := by
    rw [kindOf_eq_token_iff, ne_eq, declare_kind_eq_hidden_iff, Grammar.isTokenRule,
      Bool.and_eq_true, Bool.not_eq_true']
    exact and_congr_left' (by simp)

theorem describes_of_get? {g : Grammar} {name : String} {info : SymbolInfo}
    (get : (resolve g).1.get? name = some info) :
    ∃ d, g.get? name = some d ∧ d.name = name ∧ Describes g d info := by
  rw [get?_resolve, get?_declared] at get
  cases found : g.rules.zipIdx.find? fun d => d.1.name == name with
  | none => simp [found] at get
  | some d =>
    rw [found] at get
    simp only [Option.map_some, Option.some.injEq] at get
    refine ⟨d.1, by rw [get?_eq_find?_zipIdx, found]; rfl, ?_, ?_⟩
    · simpa using List.find?_some found
    · rw [← get]
      exact describes_kindOf g d.2 d.1 _ _

theorem get?_eq_none_iff (g : Grammar) (name : String) :
    (resolve g).1.get? name = none ↔ g.get? name = none := by
  rw [get?_resolve, get?_declared, get?_eq_find?_zipIdx]
  simp only [Option.map_eq_none_iff]

theorem keyed_resolve (g : Grammar) : (resolve g).1.Keyed := by
  intro e mem
  obtain ⟨d, -, name, describes⟩ := describes_of_get? (OrderedMap.get?_eq_some_iff.2 mem)
  rw [describes.name, name]

theorem infos_resolve {g : Grammar} (nodup : (g.rules.map Definition.name).Nodup) :
    (resolve g).1.infos.map (fun info => (info.name, info.body))
      = g.rules.map fun d => (d.name, d.body) := by
  have names : (g.rules.zipIdx.map fun d => d.1.name) = g.rules.map Definition.name := by
    conv_rhs => rw [← List.zipIdx_map_fst 0 g.rules, List.map_map]
    rfl
  have declared : (declaredRules g).entries
      = g.rules.zipIdx.map fun d => (d.1.name, declare g d.2 d.1) := by
    refine (OrderedMap.entries_foldl_insertIfNew (m := ∅) ?_).trans (List.nil_append _)
    rw [names]
    exact nodup
  have both : (g.rules.zipIdx.map fun d => (d.1.name, d.1.body))
      = g.rules.map fun d => (d.name, d.body) := by
    conv_rhs => rw [← List.zipIdx_map_fst 0 g.rules, List.map_map]
    rfl
  rw [← both]
  simp only [resolve, classify, SymbolTable.infos, OrderedMap.values, OrderedMap.mapValues,
    Symbols.declared, declared, List.map_map]
  rfl

theorem names_resolve {g : Grammar} (nodup : (g.rules.map Definition.name).Nodup) :
    (resolve g).1.infos.map SymbolInfo.name = g.rules.map Definition.name := by
  have listed := congrArg (List.map Prod.fst) (infos_resolve nodup)
  rw [List.map_map, List.map_map] at listed
  exact listed

theorem exists_of_mem_rules {g : Grammar} (nodup : (g.rules.map Definition.name).Nodup)
    {d : Definition} (mem : d ∈ g.rules) :
    ∃ info, (resolve g).1.get? d.name = some info ∧ info.body = d.body := by
  have listed : (d.name, d.body) ∈ (resolve g).1.infos.map fun info => (info.name, info.body) := by
    rw [infos_resolve nodup]
    exact List.mem_map_of_mem mem
  obtain ⟨info, known, same⟩ := List.mem_map.1 listed
  obtain ⟨name, body⟩ := Prod.mk.inj same
  exact ⟨info, name ▸ (keyed_resolve g).get?_name known, body⟩

theorem unresolvedIn_eq_nil {known : String → Bool} {place : String} {owner : Option String}
    {names : List String} (h : unresolvedIn known place owner names = []) :
    ∀ name ∈ names, known name = true := by
  simp only [unresolvedIn, List.map_eq_nil_iff, List.filter_eq_nil_iff] at h
  intro name hname
  simpa using h name hname

theorem isError_of_mem_unresolvedIn {known : String → Bool} {place : String}
    {owner : Option String} {names : List String} {d : Diagnostic}
    (h : d ∈ unresolvedIn known place owner names) : d.isError = true := by
  obtain ⟨name, -, rfl⟩ := List.mem_map.1 h
  rfl

theorem isError_of_mem_resolve {g : Grammar} {d : Diagnostic} (h : d ∈ (resolve g).2) :
    d.isError = true := by
  simp only [resolve, List.mem_append] at h
  rcases h with (((h | h) | h) | h) | h
  · obtain ⟨e, -, he⟩ := List.mem_filterMap.1 h
    split at he
    · split at he
      · cases he
      · cases he
        rfl
    · cases he
  · simp only [referenceReports, List.mem_append, List.mem_flatMap] at h
    rcases h with (((((⟨info, -, h⟩ | ⟨extra, -, h⟩) | h) | h) | h) | h) | h
    all_goals exact isError_of_mem_unresolvedIn h
  · obtain ⟨component, -, he⟩ := List.mem_filterMap.1 h
    obtain ⟨cycle, -, rfl⟩ := Option.map_eq_some_iff.1 he
    simp only [cycleKind]
    split <;> rfl
  · obtain ⟨name, -, he⟩ := List.mem_filterMap.1 h
    split at he
    · split at he
      · cases he
      · cases he
        rfl
    · cases he
  · obtain ⟨word, -, he⟩ := List.mem_filterMap.1 h
    split at he
    · split at he
      · cases he
      · cases he
        rfl
    · cases he

def Known (t : SymbolTable) (name : String) : Prop :=
  t.contains name = true ∨ t.externals.contains name = true

theorem known_of_declared {g : Grammar} {name : String}
    (h : ((declared g).contains name || (declared g).externals.contains name) = true) :
    Known (resolve g).1 name := by
  rw [Bool.or_eq_true] at h
  rcases h with h | h
  · refine .inl ?_
    obtain ⟨info, get⟩ := SymbolTable.contains_iff.1 h
    exact SymbolTable.contains_iff.2 ⟨_, by rw [get?_resolve, get]; rfl⟩
  · exact .inr h

/-- Without reports, every reference of a rule or an extra has something to stand for. -/
theorem known_of_references {g : Grammar} (none : referenceReports g (declared g) = []) :
    (∀ name info, (resolve g).1.get? name = some info →
        ∀ k ∈ info.body.occurrences, Known (resolve g).1 k)
      ∧ (∀ extra ∈ g.extras, ∀ k ∈ extra.occurrences, Known (resolve g).1 k)
      ∧ ∀ word ∈ g.word, (resolve g).1.contains word = true := by
  simp only [referenceReports, List.append_eq_nil_iff, List.flatMap_eq_nil_iff] at none
  obtain ⟨⟨⟨⟨⟨⟨rules, extras⟩, -⟩, -⟩, -⟩, -⟩, word⟩ := none
  refine ⟨fun name info get k hk => ?_, fun extra hextra k hk => ?_, fun name hname => ?_⟩
  · rw [get?_resolve] at get
    obtain ⟨first, first_get, rfl⟩ := Option.map_eq_some_iff.1 get
    refine known_of_declared (unresolvedIn_eq_nil
      (rules first (SymbolTable.mem_infos.2 ⟨name, first_get⟩)) k ?_)
    rw [get?_declared] at first_get
    obtain ⟨d, -, rfl⟩ := Option.map_eq_some_iff.1 first_get
    simpa [declare, Rule.symbols] using hk
  · exact known_of_declared (unresolvedIn_eq_nil (extras extra hextra) k
      (by simpa [Rule.symbols] using hk))
  · have known := unresolvedIn_eq_nil word name (by simpa using hname)
    obtain ⟨info, get⟩ := SymbolTable.contains_iff.1 known
    exact SymbolTable.contains_iff.2 ⟨_, by rw [get?_resolve, get]; rfl⟩

end Symbols

end Productions
