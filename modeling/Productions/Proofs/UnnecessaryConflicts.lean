import Productions.Proofs.LeftmostExpansion
import Productions.Proofs.Recompilation.Arrangement
import Productions.Proofs.Reordering.NormalForm
import Productions.Proofs.Unreachable

/-! Conflicts that are reported as unnecessary. Two names compete if what they stand for can begin
with the same terminal, or can both go altogether. In a grammar that compiles every name of a
declared set stands for something, be it a variable, a hidden rule or a token, and a set of two
names or more is reported exactly if no two of them compete. -/
namespace Productions

namespace NormalForm

/-- What the name of a rule stands for: the body of a variable or of a hidden rule, or a token. -/
inductive Denotes (n : NormalForm) : String → Expr → Prop where
  | body {v} (mem : v ∈ n.vars) : Denotes n v.name v.body
  | hidden {name body} (get : n.expansions.get? name = some body) : Denotes n name body
  | token {i entry} (lookup : n.lexicon[i]? = some entry) (named : entry.named = true) :
      Denotes n entry.name (.symbol (.lexical i))

/-- Two names stand for something that can begin with one terminal, or that can both go. -/
def Competes (n : NormalForm) (a b : String) : Prop :=
  ∃ e f, n.Denotes a e ∧ n.Denotes b f
    ∧ ((∃ t, n.BeginsWith e t ∧ n.BeginsWith f t) ∨ n.Disappears e ∧ n.Disappears f)

variable {n : NormalForm}

theorem Competes.symm {a b : String} (h : n.Competes a b) : n.Competes b a := by
  obtain ⟨e, f, first, second, ⟨t, begins, begins'⟩ | ⟨gone, gone'⟩⟩ := h
  · exact ⟨f, e, second, first, .inl ⟨t, begins', begins⟩⟩
  · exact ⟨f, e, second, first, .inr ⟨gone', gone⟩⟩

theorem bodyOf_of_mem (names : (n.vars.map Variable.name).Nodup) {v : Variable} (mem : v ∈ n.vars) :
    n.bodyOf v.name = some v.body := by
  have found : (n.variableId? v.name).isSome := by
    rw [variableId?, List.findIdx?_isSome, List.any_eq_true]
    exact ⟨v, mem, beq_self_eq_true v.name⟩
  obtain ⟨i, found⟩ := Option.isSome_iff_exists.1 found
  obtain ⟨bound, same, -⟩ := List.findIdx?_eq_some_iff_getElem.1 found
  have only : n.vars[i] = v :=
    List.inj_on_of_nodup_map names (List.getElem_mem bound) mem (beq_iff_eq.1 same)
  rw [bodyOf, found]
  simp only [List.getElem?_eq_getElem bound, Option.map_some, only]

theorem bodyOf_of_apart {name : String} (apart : ∀ v ∈ n.vars, v.name ≠ name) :
    n.variableId? name = none ∧ n.bodyOf name = n.expansions.get? name := by
  have none : n.variableId? name = none := by
    rw [variableId?, List.findIdx?_eq_none_iff]
    intro v mem
    exact beq_eq_false_iff_ne.2 (apart v mem)
  refine ⟨none, ?_⟩
  rw [bodyOf, none]

end NormalForm

namespace Conflicts

variable {n : NormalForm}

open FirstSets

theorem someCompete_eq_false_iff (members : List (OrderedSet Symbol × Bool)) :
    someCompete members = false ↔ members.Pairwise fun a b => compete a b = false := by
  induction members with
  | nil => simp [someCompete]
  | cons a members ih =>
    rw [someCompete, Bool.or_eq_false_iff, List.pairwise_cons, ih, List.any_eq_false]
    simp only [Bool.not_eq_true]

/-- What is found for two expressions competes if they can begin alike or both go. -/
theorem compete_iff {e f : Expr} :
    compete ((ofNormalForm n).ofExpr e, (ofNormalForm n).isNullable e)
        ((ofNormalForm n).ofExpr f, (ofNormalForm n).isNullable f) = true
      ↔ (∃ t, n.BeginsWith e t ∧ n.BeginsWith f t) ∨ n.Disappears e ∧ n.Disappears f := by
  simp only [compete, Bool.or_eq_true, Bool.and_eq_true, List.any_eq_true, OrderedSet.mem_toList,
    OrderedSet.contains_iff, NormalForm.isNullable_iff_disappears,
    NormalForm.mem_ofExpr_iff_beginsWith]
  exact or_comm

theorem nodup_sortedSet (names : List String) : (sortedSet names).Nodup :=
  (List.mergeSort_perm _ _).nodup_iff.2 (OrderedSet.nodup _)

theorem mem_sets_ofDeclared {declared : List (List String)} {set : List String} :
    set ∈ (ofDeclared declared).sets ↔ set ≠ [] ∧ ∃ names ∈ declared, sortedSet names = set := by
  simp only [ofDeclared, OrderedSet.mem_toList, OrderedSet.mem_ofList, List.mem_filter,
    List.mem_map]
  rw [and_comm]
  refine and_congr_left' ?_
  cases set <;> simp

def Finds (n : NormalForm) (set : List String) : Prop :=
  ∀ name ∈ set, (∃ e, n.Denotes name e) ∧ ∀ e, n.Denotes name e →
    (ofNormalForm n).ofName? n name
      = some ((ofNormalForm n).ofExpr e, (ofNormalForm n).isNullable e)

/-- A set is unnecessary if it has two members or more, of which no two compete. -/
theorem isUnnecessary_iff {set : List String} (finds : Finds n set) :
    isUnnecessary (ofNormalForm n) n set = true
      ↔ 2 ≤ set.length ∧ set.Pairwise fun a b => ¬ n.Competes a b := by
  have all : (set.filterMap ((ofNormalForm n).ofName? n)).length = set.length := by
    refine List.filterMap_length_eq_length.2 fun name mem => ?_
    obtain ⟨⟨e, denotes⟩, found⟩ := finds name mem
    rw [found e denotes]
    rfl
  have pairs : someCompete (set.filterMap ((ofNormalForm n).ofName? n)) = false
      ↔ set.Pairwise fun a b => ¬ n.Competes a b := by
    rw [someCompete_eq_false_iff, List.pairwise_filterMap]
    refine List.Pairwise.iff_of_mem fun {a b} memA memB => ?_
    obtain ⟨⟨e, denotesA⟩, foundA⟩ := finds a memA
    obtain ⟨⟨f, denotesB⟩, foundB⟩ := finds b memB
    constructor
    · rintro apart ⟨e, f, denotesA, denotesB, both⟩
      have none := apart _ (foundA e denotesA) _ (foundB f denotesB)
      rw [compete_iff.2 both] at none
      cases none
    · intro apart x hx y hy
      obtain rfl := Option.some.inj ((foundA e denotesA).symm.trans hx)
      obtain rfl := Option.some.inj ((foundB f denotesB).symm.trans hy)
      rw [Bool.eq_false_iff]
      exact fun both => apart ⟨e, f, denotesA, denotesB, compete_iff.1 both⟩
  simp only [isUnnecessary, all, decide_true, Bool.and_true, Bool.and_eq_true, decide_eq_true_iff,
    Bool.not_eq_true', pairs]

/-- How often and in which order a set lists its names does not matter. -/
theorem pairwise_sortedSet_iff {names : List String} :
    (2 ≤ (sortedSet names).length ∧ (sortedSet names).Pairwise fun a b => ¬ n.Competes a b)
      ↔ (∃ a ∈ names, ∃ b ∈ names, a ≠ b)
        ∧ ∀ a ∈ names, ∀ b ∈ names, a ≠ b → ¬ n.Competes a b := by
  have apart : Std.Symm fun a b => ¬ n.Competes a b := ⟨fun _ _ h both => h both.symm⟩
  constructor
  · rintro ⟨several, pairs⟩
    refine ⟨?_, fun a memA b memB ne =>
      pairs.forall (Validation.mem_sortedSet.2 memA) (Validation.mem_sortedSet.2 memB) ne⟩
    match same : sortedSet names with
    | [] | [_] => simp [same] at several
    | a :: b :: rest =>
      have nodup := nodup_sortedSet names
      rw [same] at nodup
      refine ⟨a, Validation.mem_sortedSet.1 (by simp [same]), b,
        Validation.mem_sortedSet.1 (by simp [same]), ?_⟩
      rintro rfl
      simp at nodup
  · rintro ⟨⟨a, memA, b, memB, ne⟩, pairs⟩
    constructor
    · have two : [a, b].Nodup := by simpa using ne
      refine (two.subperm ?_).length_le
      simp [Validation.mem_sortedSet, memA, memB]
    · refine (nodup_sortedSet names).pairwise_of_forall_ne fun a memA b memB ne => ?_
      exact pairs a (Validation.mem_sortedSet.1 memA) b (Validation.mem_sortedSet.1 memB) ne

end Conflicts

namespace Grammar.Compiles

open NormalForm FirstSets

variable {g : Grammar} {settings : Settings} {start : String} {c : CompiledGrammar}

theorem nodup_names (h : g.Compiles settings start c) :
    ((g.settled settings start).vars.map Variable.name).Nodup := by
  have names := h.arranged.names
  rw [h.vars_eq_map, List.map_map] at names
  exact names

theorem mem_names_iff (h : g.Compiles settings start c) {name : String} :
    (∃ v ∈ (g.settled settings start).vars, v.name = name)
      ↔ ∃ info ∈ keptRules g.table start, info.name = name := by
  have names := h.names_eq
  rw [h.vars_eq_map, List.map_map] at names
  have same : name ∈ (g.settled settings start).vars.map Variable.name
      ↔ name ∈ (keptRules g.table start).map SymbolInfo.name := by
    rw [← names]
    rfl
  simpa only [List.mem_map] using same

theorem mem_expansions_iff (h : g.Compiles settings start c) {name : String} :
    (∃ body, (g.settled settings start).expansions.get? name = some body)
      ↔ ∃ info, g.table.get? name = some info ∧ info.kind = .hidden ∧ name ≠ start := by
  have keyed := Symbols.keyed_resolve g
  simp only [settled, resolveLevels, OrderedMap.get?_mapValues, Option.map_eq_some_iff]
  constructor
  · rintro ⟨_, body, get, rfl⟩
    obtain ⟨hidden, listed, rfl, -⟩ := (get?_expansions_iff h.clean).1 get
    obtain ⟨mem, kind, other⟩ := mem_expandedInfos.1 listed
    exact ⟨hidden, keyed.get?_name mem, kind, other⟩
  · rintro ⟨info, get, kind, other⟩
    obtain rfl := keyed.name_eq get
    have listed := mem_expandedInfos.2 ⟨SymbolTable.mem_infos.2 ⟨_, get⟩, kind, other⟩
    exact ⟨_, _, (get?_expansions_iff h.clean).2 ⟨info, listed, rfl, rfl⟩, rfl⟩

theorem apart_of_expansion (h : g.Compiles settings start c) {name : String} {body : Expr}
    (get : (g.settled settings start).expansions.get? name = some body) :
    ∀ v ∈ (g.settled settings start).vars, v.name ≠ name := by
  intro v mem same
  obtain ⟨info, found, kind, other⟩ := h.mem_expansions_iff.1 ⟨body, get⟩
  obtain ⟨kept, listed, named⟩ := h.mem_names_iff.1 ⟨v, mem, same⟩
  obtain ⟨found', isKept⟩ := (mem_keptRules_iff (Symbols.keyed_resolve g)).1 listed
  rw [named, found] at found'
  obtain rfl := Option.some.inj found'
  rcases isKept with first | kept
  · exact other (named.symm.trans first)
  · rw [kind] at kept
    cases kept

theorem expansion_of_named (h : g.Compiles settings start c) {entry : LexicalEntry}
    (mem : entry ∈ (g.settled settings start).lexicon) (named : entry.named = true) :
    (g.settled settings start).expansions.get? entry.name = none := by
  rw [h.lexicon_settled] at mem
  have kind := h.kind?_of_named mem named
  rw [Option.eq_none_iff_forall_ne_some]
  intro body get
  obtain ⟨info, found, hidden, -⟩ := h.mem_expansions_iff.1 ⟨body, get⟩
  rw [SymbolTable.kind?, found, Option.map_some, hidden] at kind
  cases kind

theorem entry_of_named (h : g.Compiles settings start c) {i : ℕ} {entry : LexicalEntry}
    (lookup : (g.settled settings start).lexicon[i]? = some entry) (named : entry.named = true) :
    NormalForm.namedEntry? (g.settled settings start) entry.name = some i := by
  have once := h.arranged.once
  rw [← h.lexicon_settled] at once
  have found := Lexicon.findNamed?_of_namedOnce
    (L := .ofEntries (g.settled settings start).lexicon ∅) once lookup named
  rwa [Lexicon.findNamed?_eq] at found

/-- A token rule that is the start rule has its own entry as its body. -/
theorem body_of_named (h : g.Compiles settings start c) {i : ℕ} {entry : LexicalEntry}
    (lookup : (g.settled settings start).lexicon[i]? = some entry) (named : entry.named = true)
    {v : Variable} (mem : v ∈ (g.settled settings start).vars) (same : v.name = entry.name) :
    v.body = .symbol (.lexical i) := by
  rw [h.lexicon_settled] at lookup
  have mem' := List.mem_map_of_mem
    (f := fun v => { v with fields := (g.settled settings start).fieldsOf v.body }) mem
  rw [← h.vars_eq_map] at mem'
  have token := h.arranged.namesakes _ mem' entry (List.mem_of_getElem? lookup) named same.symm
  obtain ⟨j, own, body, place, named', name⟩ := h.arranged.tokens _ mem' token
  have place' : j = i := h.arranged.once.eq_of_namesakes place lookup
    ⟨named', named, name.trans same⟩
  rw [← place']
  exact body

/-- The check finds the first terminals of whatever a name stands for. -/
theorem ofName?_of_denotes (h : g.Compiles settings start c) {name : String} {e : Expr}
    (denotes : (g.settled settings start).Denotes name e) :
    (ofNormalForm (g.settled settings start)).ofName? (g.settled settings start) name
      = some ((ofNormalForm (g.settled settings start)).ofExpr e,
        (ofNormalForm (g.settled settings start)).isNullable e) := by
  cases denotes with
  | body mem => rw [ofName?, bodyOf_of_mem h.nodup_names mem]
  | hidden get => rw [ofName?, (bodyOf_of_apart (h.apart_of_expansion get)).2, get]
  | @token i entry lookup named =>
    by_cases first : ∃ v ∈ (g.settled settings start).vars, v.name = entry.name
    · obtain ⟨v, mem, same⟩ := first
      rw [ofName?, ← same, bodyOf_of_mem h.nodup_names mem, h.body_of_named lookup named mem same]
    · have apart : ∀ v ∈ (g.settled settings start).vars, v.name ≠ entry.name :=
        fun v mem same => first ⟨v, mem, same⟩
      obtain ⟨none, body⟩ := bodyOf_of_apart apart
      have lexical : (g.settled settings start).lookup entry.name = some (.lexical i) := by
        rw [NormalForm.lookup, none, h.entry_of_named lookup named]
        rfl
      have full : (ofNormalForm (g.settled settings start)).isNullable (.symbol (.lexical i))
          = false := congrFun h.tokenNullable_eq (.lexical i)
      rw [ofName?, body, h.expansion_of_named (List.mem_of_getElem? lookup) named, lexical, full]
      rfl

/-- The name of every rule stands for something. -/
theorem exists_denotes (h : g.Compiles settings start c) {name : String} (rule : g.IsRule name) :
    ∃ e, (g.settled settings start).Denotes name e := by
  have keyed := Symbols.keyed_resolve g
  obtain ⟨info, get⟩ := SymbolTable.contains_iff.1 (contains_table.2 rule)
  obtain rfl := keyed.name_eq get
  by_cases kept : info.name = start ∨ isKept info.kind = true
  · have listed := (mem_keptRules_iff keyed).2 ⟨get, kept⟩
    obtain ⟨v, mem, named⟩ := h.mem_names_iff.2 ⟨info, listed, rfl⟩
    exact ⟨v.body, named ▸ .body mem⟩
  · rw [not_or] at kept
    by_cases token : info.kind = .token
    · have entered := h.partsIn.tokens info (SymbolTable.mem_infos.2 ⟨_, get⟩) token
      obtain ⟨i, found⟩ := Option.isSome_iff_exists.1 entered
      obtain ⟨entry, place, named, same⟩ := Lexicon.exists_of_findNamed? found
      have settled : (g.settled settings start).lexicon[i]?
          = some (Lexicon.settleEntry (g.levels settings) entry) := by
        rw [h.lexicon_settled, h.getElem?_lexicon, place]
        rfl
      have denotes := Denotes.token settled named
      exact ⟨_, (show _ = info.name from same) ▸ denotes⟩
    · have hidden : info.kind = .hidden := by
        cases kind : info.kind <;> simp_all [isKept]
      obtain ⟨body, get⟩ := h.mem_expansions_iff.2 ⟨info, get, hidden, kept.1⟩
      exact ⟨body, .hidden get⟩

theorem isRule_of_conflict (h : g.Compiles settings start c) {declared : List String}
    (mem : declared ∈ g.conflicts) {name : String} (listed : name ∈ declared) :
    g.IsRule name := by
  have none := h.clean.names
  simp only [Symbols.referenceReports, List.append_eq_nil_iff] at none
  obtain ⟨⟨⟨⟨⟨⟨-, -⟩, conflicts⟩, -⟩, -⟩, -⟩, -⟩ := none
  have known := Symbols.unresolvedIn_eq_nil conflicts name
    (List.mem_flatten.2 ⟨declared, mem, listed⟩)
  obtain ⟨info, get⟩ := SymbolTable.contains_iff.1 known
  exact contains_table.1 (SymbolTable.contains_iff.2 ⟨_, by rw [Symbols.get?_resolve, get]; rfl⟩)

theorem finds (h : g.Compiles settings start c) {declared : List String}
    (mem : declared ∈ g.conflicts) :
    Conflicts.Finds (g.settled settings start) (Conflicts.sortedSet declared) := by
  intro name listed
  have rule := h.isRule_of_conflict mem (Validation.mem_sortedSet.1 listed)
  exact ⟨h.exists_denotes rule, fun _ => h.ofName?_of_denotes⟩

/-- A declared set is found unnecessary if it has two names or more, of which no two compete. -/
theorem isUnnecessary_iff (h : g.Compiles settings start c) {declared : List String}
    (mem : declared ∈ g.conflicts) :
    Conflicts.isUnnecessary (ofNormalForm (g.settled settings start)) (g.settled settings start)
        (Conflicts.sortedSet declared) = true
      ↔ (∃ a ∈ declared, ∃ b ∈ declared, a ≠ b)
        ∧ ∀ a ∈ declared, ∀ b ∈ declared, a ≠ b → ¬ (g.settled settings start).Competes a b :=
  (Conflicts.isUnnecessary_iff (h.finds mem)).trans Conflicts.pairwise_sortedSet_iff

end Grammar.Compiles

namespace CompiledGrammar

def WarnsOf (c : CompiledGrammar) (set : List String) : Prop :=
  ∃ w ∈ c.warnings, w.kind = .unnecessaryConflict ∧ ∀ name, name ∈ w.rules ↔ name ∈ set

end CompiledGrammar

namespace Grammar.Compiles

variable {g : Grammar} {settings : Settings} {start : String} {c : CompiledGrammar}

theorem warnsOf_iff (h : g.Compiles settings start c) {declared : List String}
    (mem : declared ∈ g.conflicts) : c.WarnsOf declared
      ↔ (∃ a ∈ declared, ∃ b ∈ declared, a ≠ b)
        ∧ ∀ a ∈ declared, ∀ b ∈ declared, a ≠ b → ¬ (g.settled settings start).Competes a b := by
  constructor
  · rintro ⟨w, listed, kind, named⟩
    rw [h.warnings_eq, List.mem_append] at listed
    rcases listed with listed | listed
    · obtain ⟨set, found, rfl⟩ := List.mem_map.1 listed
      obtain ⟨mem', unnecessary⟩ := List.mem_filter.1 found
      obtain ⟨-, other, otherMem, rfl⟩ := Conflicts.mem_sets_ofDeclared.1 mem'
      have same : ∀ name, name ∈ other ↔ name ∈ declared :=
        fun name => Validation.mem_sortedSet.symm.trans (named name)
      simpa only [same] using (h.isUnnecessary_iff otherMem).1 unnecessary
    · obtain ⟨info, -, rfl⟩ := List.mem_map.1 listed
      cases kind
  · intro apart
    obtain ⟨a, memA, -⟩ := apart.1
    have nonempty : Conflicts.sortedSet declared ≠ [] :=
      List.ne_nil_of_mem (Validation.mem_sortedSet.2 memA)
    refine ⟨.about .unnecessaryConflict (", ".intercalate (Conflicts.sortedSet declared))
      (Conflicts.sortedSet declared) [], ?_, rfl, fun name => Validation.mem_sortedSet⟩
    rw [h.warnings_eq, List.mem_append]
    refine .inl (List.mem_map.2 ⟨_, List.mem_filter.2 ⟨?_, (h.isUnnecessary_iff mem).2 apart⟩, rfl⟩)
    exact Conflicts.mem_sets_ofDeclared.2 ⟨nonempty, declared, mem, rfl⟩

end Grammar.Compiles

/-- First terminals and empty expressions are those of leftmost expansion, so in a grammar that
compiles a declared set is reported as unnecessary if it has two names or more, all of which stand
for something, and no two of which can begin with one terminal or can both go. -/
theorem firstSets_exact :
    (∀ (n : NormalForm) (e : Expr),
      (∀ t, t ∈ (FirstSets.ofNormalForm n).ofExpr e ↔ n.BeginsWith e t)
      ∧ ((FirstSets.ofNormalForm n).isNullable e = true ↔ n.Disappears e))
    ∧ ∀ (g : Grammar) (settings : Settings) (c : CompiledGrammar), g.compile settings = .ok c →
      ∃ d, g.disambiguated settings = .ok d ∧ d.validate = .ok c
        ∧ ∀ declared ∈ g.conflicts, (∀ name ∈ declared, ∃ e, d.normal.Denotes name e)
          ∧ ((∃ a ∈ declared, ∃ b ∈ declared, a ≠ b) →
            (c.WarnsOf declared
              ↔ ¬ ∃ a ∈ declared, ∃ b ∈ declared, a ≠ b ∧ d.normal.Competes a b)) := by
  constructor
  · intro n e
    exact ⟨NormalForm.mem_ofExpr_iff_beginsWith e, NormalForm.isNullable_iff_disappears e⟩
  · intro g settings c compiled
    obtain ⟨start, h⟩ := Grammar.compile_eq_ok compiled
    have stage := h.disambiguated_eq
    have bound (d : Disambiguated) : (.ok d >>= Disambiguated.validate) = d.validate := rfl
    rw [Grammar.compile_eq, stage, bound] at compiled
    refine ⟨_, stage, compiled, fun declared mem => ⟨fun name listed => ?_, fun several => ?_⟩⟩
    · exact h.exists_denotes (h.isRule_of_conflict mem listed)
    · rw [h.warnsOf_iff mem, and_iff_right several]
      push Not
      rfl

/-- Lists of names, with a hidden rule for what follows the first one and a token for names. The
first set names a rule twice. -/
def namedLists : Grammar where
  name := "lists"
  rules := [
    ⟨"list", .seq [.symbol "name", .symbol "_rest"], false⟩,
    ⟨"_rest", .repeated (.seq [.terminal (.literal ","), .symbol "name"]) .zeroOrMore, true⟩,
    ⟨"name", .token (.repeated (.terminal (.literal "x")) .oneOrMore) false, false⟩]
  extras := []
  precedences := []
  conflicts := [["_rest", "name", "_rest"], ["list", "name"]]
  externals := []
  inlined := []
  supertypes := []
  word := none

/-- What follows a name begins with a comma, a list with a name: the first set is reported, the
second is not. -/
theorem firstSets_namedLists : ∃ c d, namedLists.compile .default = .ok c
    ∧ namedLists.disambiguated .default = .ok d ∧ c.WarnsOf ["_rest", "name", "_rest"]
    ∧ ¬ d.normal.Competes "_rest" "name" ∧ ∃ a ∈ ["list", "name"], ∃ b ∈ ["list", "name"],
      a ≠ b ∧ d.normal.Competes a b := by
  obtain ⟨c, compiled, warnings⟩ : ∃ c, namedLists.compile .default = .ok c ∧ c.warnings
      = [.about .unnecessaryConflict "_rest, name" ["_rest", "name"] []] :=
    exists_ok_of_toOption_map (by cbv)
  obtain ⟨d, stage, -, exact⟩ := firstSets_exact.2 namedLists .default c compiled
  have reported : c.WarnsOf ["_rest", "name", "_rest"] := by
    refine ⟨_, warnings ▸ List.mem_singleton_self _, rfl, fun name => ?_⟩
    simp [Diagnostic.about, Diagnostic.report, or_comm]
  have silent : ¬ c.WarnsOf ["list", "name"] := by
    rintro ⟨w, listed, -, named⟩
    rw [warnings, List.mem_singleton] at listed
    subst listed
    exact absurd ((named "list").2 (by decide)) (by decide)
  have first := (exact ["_rest", "name", "_rest"] (by decide)).2 ⟨"_rest", by decide, "name",
    by decide, by decide⟩
  have second := (exact ["list", "name"] (by decide)).2 ⟨"list", by decide, "name", by decide,
    by decide⟩
  refine ⟨c, d, compiled, stage, reported, fun competes => ?_, ?_⟩
  · exact first.1 reported ⟨"_rest", by decide, "name", by decide, by decide, competes⟩
  · by_contra none
    exact silent (second.2 none)

end Productions
