import Productions.Proofs.Consistency
import Productions.Proofs.Reordering.Inlining
import Productions.Proofs.Reordering.Tables

/-! Rules that are reported as unreachable. The search follows the references of rules as they were
written, but it begins at the names of the symbols that extras have become. An extra that refers to
a hidden rule has become something else by then, and a literal can have the name of a rule. -/
namespace Productions

open Relation

namespace Grammar

variable (g : Grammar)

def IsRule (name : String) : Prop := (g.get? name).isSome

instance (name : String) : Decidable (g.IsRule name) :=
  inferInstanceAs (Decidable ((g.get? name).isSome = true))

def RefersTo (a b : String) : Prop := ∃ d, g.get? a = some d ∧ b ∈ d.body.occurrences

/-- What should count as reached before any reference has been followed: the start rule, whatever
extras refer to, and the word rule. -/
inductive IsRoot (start : String) : String → Prop where
  | start : IsRoot start start
  | extra {e name} (listed : e ∈ g.extras) (refers : name ∈ e.occurrences) : IsRoot start name
  | word {name} (given : g.word = some name) : IsRoot start name

def ReachedFrom (roots : String → Prop) (name : String) : Prop :=
  ∃ a, roots a ∧ ReflTransGen g.RefersTo a name

variable {g} {roots roots' : String → Prop} {name : String}

theorem ReachedFrom.of_root (root : roots name) : g.ReachedFrom roots name := ⟨name, root, .refl⟩

/-- Other roots reach as much if they reach all roots that are rules. -/
theorem ReachedFrom.of_roots (reached : ∀ a, roots a → g.IsRule a → g.ReachedFrom roots' a)
    (rule : g.IsRule name) (h : g.ReachedFrom roots name) : g.ReachedFrom roots' name := by
  obtain ⟨a, root, path⟩ := h
  have ruleA : g.IsRule a := by
    rcases path.cases_head with rfl | ⟨b, ⟨d, get, -⟩, -⟩
    · exact rule
    · exact Option.isSome_of_eq_some get
  obtain ⟨b, root', before⟩ := reached a root ruleA
  exact ⟨b, root', before.trans path⟩

theorem contains_table : g.table.contains name = true ↔ g.IsRule name := by
  have none := Symbols.get?_eq_none_iff g name
  rw [SymbolTable.contains_iff, IsRule, Option.isSome_iff_ne_none, ne_eq, ← none, ← ne_eq,
    Option.ne_none_iff_exists']

theorem mem_keys_referenceGraph :
    name ∈ (Symbols.referenceGraph g.table).keys ↔ g.IsRule name := by
  rw [← contains_table, SymbolTable.contains, OrderedMap.contains_iff, Symbols.referenceGraph,
    OrderedMap.keys_mapValues]

theorem edge_table_iff {a b : String} :
    (Symbols.referenceGraph g.table).Edge a b ↔ g.RefersTo a b ∧ g.IsRule b := by
  rw [Symbols.edge_referenceGraph_iff, RefersTo]
  constructor
  · rintro ⟨info, get, ref, known⟩
    obtain ⟨d, found, -, describes⟩ := Symbols.describes_of_get? get
    rw [describes.refs, Rule.symbols, OrderedSet.mem_ofList] at ref
    exact ⟨⟨d, found, ref⟩, contains_table.1 known⟩
  · rintro ⟨⟨d, found, ref⟩, known⟩
    obtain ⟨info, get⟩ := SymbolTable.contains_iff.1
      (contains_table.2 (Option.isSome_of_eq_some found))
    obtain ⟨d', found', -, describes⟩ := Symbols.describes_of_get? get
    obtain rfl := Option.some.inj (found'.symm.trans found)
    refine ⟨info, get, ?_, contains_table.2 known⟩
    rwa [describes.refs, Rule.symbols, OrderedSet.mem_ofList]

/-- The search reaches a rule exactly if there is a path of references from where it begins. -/
theorem mem_reach_iff {starts : List String} (rule : g.IsRule name) :
    name ∈ (Symbols.referenceGraph g.table).reach starts ↔ g.ReachedFrom (· ∈ starts) name := by
  rw [Graph.mem_reach_iff]
  constructor
  · rintro ⟨a, mem, -, path⟩
    exact ⟨a, mem, path.lift id fun _ _ edge => (edge_table_iff.1 edge).1⟩
  · rintro ⟨a, mem, path⟩
    refine ⟨a, mem, ?_⟩
    clear mem
    induction path using ReflTransGen.head_induction_on with
    | refl => exact ⟨mem_keys_referenceGraph.2 rule, .refl⟩
    | head step _ ih =>
      obtain ⟨known, path⟩ := ih
      refine ⟨mem_keys_referenceGraph.2 (Option.isSome_of_eq_some step.choose_spec.1), ?_⟩
      exact .head (edge_table_iff.2 ⟨step, mem_keys_referenceGraph.1 known⟩) path

end Grammar

namespace CompiledGrammar

variable (c : CompiledGrammar)

def Warns (name : String) : Prop := ∃ d ∈ c.warnings, d.kind = .unreachableRule ∧ name ∈ d.rules

/-- The names at which the search begins. Extras and the word rule count by the names of the
symbols they have become. -/
inductive IsShown : String → Prop where
  | start : IsShown c.start
  | extra {s} (listed : s ∈ c.extras) : IsShown (c.symbolName s)
  | word {s} (given : c.word = some s) : IsShown (c.symbolName s)

end CompiledGrammar

namespace Grammar.Compiles

open NormalForm CompiledGrammar

variable {g : Grammar} {settings : Settings} {start : String} {c : CompiledGrammar}

theorem symbolName_eq (h : g.Compiles settings start c) (s : Symbol) :
    (g.settled settings start).symbolName s = c.symbolName s := by
  cases s with
  | rule id =>
    rw [h.result, CompiledGrammar.symbolName, ofNormalForm, NormalForm.symbolName,
      List.getElem?_map, Option.map_map]
    rfl
  | lexical id | external id =>
    rw [h.result]
    rfl

theorem word_eq (h : g.Compiles settings start c) :
    c.word = g.word.bind ((g.naming start).nameIn (g.lexicon start)) := by
  rw [h.result]
  exact h.partsIn.word

/-- The word rule has become a symbol of its name: that of its token, unless it is the start rule. -/
theorem exists_word (h : g.Compiles settings start c) {name : String} (given : g.word = some name) :
    ∃ s, c.word = some s ∧ c.symbolName s = name
      ∧ ((∃ id, s = .lexical id ∧ (c.lexicon[id]?).isSome) ∨ name = start) := by
  obtain ⟨info, get, token⟩ := h.exists_token_of_word given
  have keyed := Symbols.keyed_resolve g
  rw [h.word_eq, given, Option.bind_some, Naming.nameIn]
  cases vars : (g.naming start).vars.get? name with
  | some id =>
    obtain ⟨kept, place, rfl⟩ := (get?_vars keyed name id).1 vars
    obtain ⟨get', isKept⟩ := (mem_keptRules_iff keyed).1 (List.mem_of_getElem? place)
    obtain rfl := Option.some.inj (get'.symm.trans get)
    refine ⟨.rule id, rfl, ?_, .inr (isKept.resolve_right (by simp [token, NormalForm.isKept]))⟩
    have names := congrArg (fun names => names[id]?) h.names_eq
    simp only [List.getElem?_map, place, Option.map_some] at names
    rw [CompiledGrammar.symbolName, names, Option.getD_some]
  | none =>
    have kind : (g.naming start).table.kind? name = some .token := by
      rw [← token, SymbolTable.kind?]
      exact Option.map_eq_some_iff.2 ⟨info, get, rfl⟩
    have entered := h.partsIn.tokens info (SymbolTable.mem_infos.2 ⟨name, get⟩) token
    rw [keyed.name_eq get] at entered
    obtain ⟨id, found⟩ := Option.isSome_iff_exists.1 entered
    obtain ⟨entry, place, -, rfl⟩ := Lexicon.exists_of_findNamed? found
    have settled : c.lexicon[id]? = some (Lexicon.settleEntry (g.levels settings) entry) := by
      rw [h.getElem?_lexicon, place]
      rfl
    refine ⟨.lexical id, ?_, ?_, .inl ⟨id, rfl, Option.isSome_of_eq_some settled⟩⟩
    · dsimp only
      rw [kind]
      exact Option.map_eq_some_iff.2 ⟨id, found, rfl⟩
    · rw [CompiledGrammar.symbolName, settled]
      rfl

/-- The word rule counts as it was declared. -/
theorem exists_of_word (h : g.Compiles settings start c) {s : Symbol} (given : c.word = some s) :
    ∃ name, g.word = some name ∧ c.symbolName s = name
      ∧ ((∃ id, s = .lexical id ∧ (c.lexicon[id]?).isSome) ∨ name = start) := by
  have word := h.word_eq
  rw [given] at word
  obtain ⟨name, declared, -⟩ := Option.bind_eq_some_iff.1 word.symm
  obtain ⟨s', given', named⟩ := h.exists_word declared
  obtain rfl := Option.some.inj (given'.symm.trans given)
  exact ⟨name, declared, named⟩

theorem mem_roots_iff (h : g.Compiles settings start c) {name : String} :
    name ∈ Validation.roots (g.settled settings start) start ↔ c.IsShown name := by
  have extras : (g.settled settings start).extras = c.extras := by
    rw [h.result]
    rfl
  have word : (g.settled settings start).word = c.word := by
    rw [h.result]
    rfl
  have lexicon : (g.settled settings start).lexicon = c.lexicon := by
    rw [h.result]
    rfl
  rw [Validation.roots, word, extras, List.cons_append, List.mem_cons, List.mem_append,
    List.mem_map]
  constructor
  · rintro (rfl | ⟨s, listed, rfl⟩ | named)
    · exact h.start_eq ▸ .start
    · exact h.symbolName_eq s ▸ .extra listed
    · split at named
      · rename_i id given
        have same : c.symbolName (.lexical id) = name := by
          rw [Option.mem_toList, lexicon] at named
          rw [CompiledGrammar.symbolName, named, Option.getD_some]
        exact same ▸ .word given
      · cases named
  · rintro (_ | ⟨listed⟩ | ⟨given⟩)
    · exact .inl h.start_eq
    · exact .inr (.inl ⟨_, listed, h.symbolName_eq _⟩)
    · obtain ⟨name, -, rfl, ⟨id, rfl, known⟩ | same⟩ := h.exists_of_word given
      · refine .inr (.inr ?_)
        obtain ⟨entry, place⟩ := Option.isSome_iff_exists.1 known
        rw [given, lexicon, CompiledGrammar.symbolName]
        simp [place]
      · exact .inl same

theorem warns_iff_mem (h : g.Compiles settings start c) {name : String} :
    c.Warns name ↔ ∃ info ∈ g.table.infos, info.name = name
      ∧ name ∉ (Symbols.referenceGraph g.table).reach
        (Validation.roots (g.settled settings start) start) := by
  have table : (g.settled settings start).table = g.table := rfl
  rw [Warns, h.warnings_eq]
  simp only [List.mem_append, Validation.unreachableReports, Conflicts.reports, List.mem_map,
    List.mem_filter, table]
  constructor
  · rintro ⟨_, ⟨set, -, rfl⟩ | ⟨info, ⟨listed, unreached⟩, rfl⟩, kind, named⟩
    · cases kind
    · obtain rfl := List.mem_singleton.1 named
      exact ⟨info, listed, rfl, by simpa using unreached⟩
  · rintro ⟨info, listed, rfl, unreached⟩
    exact ⟨_, .inr ⟨info, ⟨listed, by simpa using unreached⟩, rfl⟩, rfl, List.mem_singleton_self _⟩

/-- A rule is reported exactly if the search does not come to it. -/
theorem warns_iff (h : g.Compiles settings start c) {name : String} :
    c.Warns name ↔ g.IsRule name ∧ ¬ g.ReachedFrom c.IsShown name := by
  have keyed := Symbols.keyed_resolve g
  have roots : (· ∈ Validation.roots (g.settled settings start) start) = c.IsShown :=
    funext fun _ => propext h.mem_roots_iff
  rw [h.warns_iff_mem]
  constructor
  · rintro ⟨info, listed, rfl, unreached⟩
    have rule : g.IsRule info.name :=
      contains_table.1 (SymbolTable.contains_iff.2 ⟨info, keyed.get?_name listed⟩)
    exact ⟨rule, by rwa [mem_reach_iff rule, roots] at unreached⟩
  · rintro ⟨rule, unreached⟩
    obtain ⟨info, get⟩ := SymbolTable.contains_iff.1 (contains_table.2 rule)
    refine ⟨info, SymbolTable.mem_infos.2 ⟨name, get⟩, keyed.name_eq get, ?_⟩
    rwa [mem_reach_iff rule, roots]

end Grammar.Compiles

namespace CompiledGrammar

variable {g : Grammar} {settings : Settings} {c : CompiledGrammar}

/-- The reports name exactly the rules that the search does not come to. They name the rules that
cannot be reached from the start rule, the extras and the word rule exactly if the search comes to
all rules that extras refer to, and begins at no rule that cannot be reached. -/
theorem warns_exactly_iff (compiled : g.compile settings = .ok c) :
    (∀ name, c.Warns name ↔ g.IsRule name ∧ ¬ g.ReachedFrom c.IsShown name)
    ∧ ((∀ name, g.IsRule name → (c.Warns name ↔ ¬ g.ReachedFrom (g.IsRoot c.start) name))
      ↔ (∀ e ∈ g.extras, ∀ name ∈ e.occurrences, g.IsRule name → g.ReachedFrom c.IsShown name)
        ∧ ∀ s ∈ c.extras, g.IsRule (c.symbolName s) →
          g.ReachedFrom (g.IsRoot c.start) (c.symbolName s)) := by
  obtain ⟨start, h⟩ := Grammar.compile_eq_ok compiled
  refine ⟨fun _ => h.warns_iff, fun exact => ⟨fun e listed name refers rule => ?_,
    fun s listed rule => ?_⟩, fun ⟨extras, shown⟩ name rule => ?_⟩
  · by_contra unreached
    exact (exact name rule).1 (h.warns_iff.2 ⟨rule, unreached⟩) (.of_root (.extra listed refers))
  · by_contra unreached
    exact (h.warns_iff.1 ((exact _ rule).2 unreached)).2 (.of_root (.extra listed))
  · rw [h.warns_iff, and_iff_right rule, not_iff_not]
    constructor
    · refine Grammar.ReachedFrom.of_roots (fun a root ruleA => ?_) rule
      cases root with
      | start => exact .of_root .start
      | extra listed => exact shown _ listed ruleA
      | word given =>
        obtain ⟨_, declared, rfl, -⟩ := h.exists_of_word given
        exact .of_root (.word declared)
    · refine Grammar.ReachedFrom.of_roots (fun a root ruleA => ?_) rule
      cases root with
      | start => exact .of_root .start
      | extra listed refers => exact extras _ listed _ refers ruleA
      | word declared =>
        obtain ⟨s, given, rfl, -⟩ := h.exists_word declared
        exact .of_root (.word given)

def blankItems (blank : Rule) (others : List Definition) : Grammar where
  name := "items"
  rules := [
    ⟨"program", .repeated (.symbol "item") .zeroOrMore, false⟩,
    ⟨"item", .terminal (.literal "i"), false⟩] ++ others
  extras := [blank]
  precedences := []
  conflicts := []
  externals := []
  inlined := []
  supertypes := []
  word := none

/-- The blank is a literal, and one rule is not used. -/
def strayItems : Grammar :=
  blankItems (.terminal (.literal " ")) [⟨"stray", .terminal (.literal "s"), false⟩]

/-- The literal has no name of a rule, so exactly the rule that is not used is reported. -/
theorem warns_exactly_strayItems : ∃ c, strayItems.compile .default = .ok c
    ∧ ∀ name, strayItems.IsRule name →
      (c.Warns name ↔ ¬ strayItems.ReachedFrom (strayItems.IsRoot c.start) name) := by
  obtain ⟨c, compiled, shown⟩ : ∃ c, strayItems.compile .default = .ok c
      ∧ c.extras.map c.symbolName = [" "] := exists_ok_of_toOption_map (by cbv)
  refine ⟨c, compiled, (warns_exactly_iff compiled).2.2 ⟨fun e listed name refers => ?_,
    fun s listed rule => ?_⟩⟩
  · rw [List.mem_singleton.1 listed] at refers
    cases refers
  · have blank : c.symbolName s ∈ c.extras.map c.symbolName := List.mem_map_of_mem listed
    rw [shown, List.mem_singleton] at blank
    rw [blank] at rule
    exact absurd rule (by decide)

def spacedItems : Grammar :=
  blankItems (.symbol "_space") [⟨"_space", .terminal (.literal " "), true⟩]

/-- The hidden rule is reported, though an extra refers to it. -/
theorem exists_warned_space : ∃ c, spacedItems.compile .default = .ok c
    ∧ spacedItems.IsRule "_space" ∧ c.Warns "_space"
    ∧ spacedItems.ReachedFrom (spacedItems.IsRoot c.start) "_space" := by
  obtain ⟨c, compiled, warnings⟩ : ∃ c, spacedItems.compile .default = .ok c
      ∧ c.warnings = [.named .unreachableRule "_space" []] := exists_ok_of_toOption_map (by cbv)
  have warned : c.Warns "_space" := by
    refine ⟨.named .unreachableRule "_space" [], ?_, rfl, List.mem_singleton_self _⟩
    rw [warnings]
    exact List.mem_singleton_self _
  refine ⟨c, compiled, by decide, warned, ?_⟩
  exact .of_root (.extra (List.mem_singleton_self _) (List.mem_singleton_self _))

end CompiledGrammar

end Productions
