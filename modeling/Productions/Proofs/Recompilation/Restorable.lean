import Productions.Proofs.Lowering.Canonical
import Productions.Proofs.Recompilation.Written

/-! Rules of the written grammar. Where the variables keep their kinds, the rules that are kept are
theirs, all other rules are token rules, and nothing is hidden but perhaps the start rule, which
nothing refers to. -/
namespace Productions

open NormalForm

theorem Rule.exists_leaf_of_mem_occurrences {r : Rule} {k : String} (h : k ∈ r.occurrences) :
    ∃ leaf ∈ r.leaves, k ∈ leaf.occurrences := by
  have all (rules : List Rule) (h : k ∈ occurrencesAll rules)
      (ih : ∀ r ∈ rules, k ∈ r.occurrences → ∃ leaf ∈ r.leaves, k ∈ leaf.occurrences) :
      ∃ leaf ∈ leavesAll rules, k ∈ leaf.occurrences := by
    obtain ⟨r, hr, hk⟩ := mem_occurrencesAll.1 h
    obtain ⟨leaf, hl, hk⟩ := ih r hr hk
    exact ⟨leaf, mem_leavesAll.2 ⟨r, hr, hl⟩, hk⟩
  induction r with
  | terminal => cases h
  | symbol | token => exact ⟨_, List.mem_singleton_self _, h⟩
  | seq members ih | choice members ih => exact all members h ih
  | repeated _ _ ih | optional _ ih | prec _ _ _ ih | aliased _ _ _ ih | field _ _ ih => exact ih h

namespace CompiledGrammar

/-- What has to hold of a compiled grammar so that the grammar written for it compiles back to it:
names are resolved as before, bodies and entries are canonical with their precedences settled, and
the anonymous entries are distinct, used, and apart from the external tokens. -/
structure Restorable (c : CompiledGrammar) : Prop where
  names : (Symbols.resolve c.toGrammar).2 = []
  kinds : ∀ v ∈ c.vars, c.toGrammar.table.kind? v.name = some v.kind
  bodies : ∀ v ∈ c.vars, v.body.Canonical
  contents : ∀ entry ∈ c.lexicon, entry.content.Canonical
  distinct : Lexicon.Distinct c.lexicon
  used : ∀ (id : Nat) (entry : LexicalEntry), c.lexicon[id]? = some entry → entry.named = false →
    (∃ v ∈ c.vars, .lexical id ∈ v.body.symbols) ∨ .lexical id ∈ c.extras
  apart : ∀ entry ∈ c.lexicon, ∀ text, entry.named = false → entry.immediate = false →
    entry.content = .terminal (.literal text) → ⟨text, false⟩ ∉ c.externals
  covered : ∀ d ∈ c.precedence, d.unresolved ≠ [] → ∀ v, c.vars[d.id]? = some v →
    ∃ set ∈ c.toGrammar.conflicts, v.name ∈ set

section Kinds

variable {c : CompiledGrammar} (arranged : c.Arranged)
  (kinds : ∀ v ∈ c.vars, c.toGrammar.table.kind? v.name = some v.kind)

theorem body_variableRule {v : Variable} (kind : v.kind ≠ .token) :
    (c.variableRule v).body = c.exprRule v.body := by
  rw [variableRule, Arranged.wraps_none kind]

include arranged

theorem body_variableRule_of_token {v : Variable} (mem : v ∈ c.vars) (kind : v.kind = .token) :
    ∃ (id : Nat) (entry : LexicalEntry), c.lexicon[id]? = some entry
      ∧ (c.variableRule v).body = entry.toRule := by
  obtain ⟨id, entry, wraps, -, found, -⟩ := arranged.exists_wrapped mem kind
  refine ⟨id, entry, found, ?_⟩
  rw [variableRule, wraps]
  dsimp only
  rw [found]
  rfl

theorem leaves_body {v : Variable} (mem : v ∈ c.vars) (kind : v.kind ≠ .token) :
    (c.exprRule v.body).leaves = v.body.symbols.map c.symbolRule :=
  leaves_exprRule fun s hs => (arranged.bodies v mem kind s hs).isLeaf

theorem exists_rule {info : SymbolInfo} (mem : info ∈ c.toGrammar.table.infos) :
    ∃ d ∈ c.toGrammar.rules, info.name = d.name ∧ info.body = d.body := by
  have listed : (info.name, info.body) ∈ c.toGrammar.rules.map fun d => (d.name, d.body) := by
    rw [← Symbols.infos_resolve arranged.nodup_rules]
    exact List.mem_map_of_mem mem
  obtain ⟨d, mem, same⟩ := List.mem_map.1 listed
  obtain ⟨name, body⟩ := Prod.mk.inj same
  exact ⟨d, mem, name.symm, body.symm⟩

include kinds

theorem visible_rule {d : Definition} (mem : d ∈ c.toGrammar.rules) :
    d.body.Visible c.toGrammar.table.isInlined := by
  have entries {id : Nat} {entry : LexicalEntry} (found : c.lexicon[id]? = some entry) :
      entry.toRule.Visible c.toGrammar.table.isInlined := by
    intro k hk
    rw [LexicalEntry.occurrences_toRule (arranged.closed _ (List.mem_of_getElem? found))] at hk
    cases hk
  rcases List.mem_append.1 mem with mem | mem
  · obtain ⟨v, known, rfl⟩ := List.mem_map.1 mem
    by_cases kind : v.kind = .token
    · obtain ⟨id, entry, found, body⟩ := body_variableRule_of_token arranged known kind
      rw [body]
      exact entries found
    · rw [body_variableRule kind]
      intro k hk
      obtain ⟨leaf, hl, hk⟩ := Rule.exists_leaf_of_mem_occurrences hk
      rw [leaves_body arranged known kind] at hl
      obtain ⟨s, hs, rfl⟩ := List.mem_map.1 hl
      exact arranged.visible_symbolRule kinds (arranged.bodies v known kind s hs) k hk
  · obtain ⟨id, entry, found, -, -, rfl⟩ := mem_tokenRules.1 mem
    exact entries found

theorem visible_extra {r : Rule} (mem : r ∈ c.toGrammar.extras) :
    r.Visible c.toGrammar.table.isInlined := by
  obtain ⟨s, hs, rfl⟩ := List.mem_map.1 mem
  exact arranged.visible_symbolRule kinds (arranged.extras s hs)

def KeptAs (info : SymbolInfo) (v : Variable) : Prop := info.name = v.name ∧ info.kind = v.kind

omit arranged kinds in
theorem forall₂_of_names {t : SymbolTable} (keyed : t.Keyed) {infos : List SymbolInfo}
    {vars : List Variable} (known : ∀ info ∈ infos, info ∈ t.infos)
    (kinds : ∀ v ∈ vars, t.kind? v.name = some v.kind)
    (names : infos.map SymbolInfo.name = vars.map Variable.name) :
    List.Forall₂ KeptAs infos vars := by
  induction infos generalizing vars with
  | nil => rw [List.map_eq_nil_iff.1 names.symm]; exact .nil
  | cons info infos ih =>
    cases vars with
    | nil => cases names
    | cons v vars =>
      obtain ⟨name, rest⟩ := List.cons.inj names
      have kind := kinds v (by simp)
      rw [← name, SymbolTable.kind?, keyed.get?_name (known info (by simp))] at kind
      exact .cons ⟨name, Option.some.inj kind⟩
        (ih (fun i hi => known i (by simp [hi])) (fun w hw => kinds w (by simp [hw])) rest)

theorem kind_of_rest {rest : List SymbolInfo}
    (known : ∀ info ∈ rest, info ∈ c.toGrammar.table.infos)
    (names : rest.map SymbolInfo.name = c.tokenRules.map Definition.name) :
    ∀ info ∈ rest, info.kind = .token := by
  intro info mem
  have name := List.mem_map_of_mem (f := SymbolInfo.name) mem
  rw [names] at name
  obtain ⟨d, written, same⟩ := List.mem_map.1 name
  obtain ⟨id, entry, found, named, -, rfl⟩ := mem_tokenRules.1 written
  have kind := arranged.kind?_of_entry kinds found named
  have get := (Symbols.keyed_resolve c.toGrammar).get?_name (known info mem)
  rw [show entry.name = info.name from same, SymbolTable.kind?, get] at kind
  exact Option.some.inj kind

/-- The kept rules are those of the variables; all other rules are token rules. -/
theorem exists_infos_eq : ∃ rest, c.toGrammar.table.infos
      = keptRules c.toGrammar.table c.start ++ rest
    ∧ List.Forall₂ KeptAs (keptRules c.toGrammar.table c.start) c.vars
    ∧ rest.map SymbolInfo.name = c.tokenRules.map Definition.name
    ∧ ∀ info ∈ rest, info.kind = .token := by
  have keyed := Symbols.keyed_resolve c.toGrammar
  have names : c.toGrammar.table.infos.map SymbolInfo.name
      = c.vars.map Variable.name ++ c.tokenRules.map Definition.name := by
    rw [Symbols.names_resolve arranged.nodup_rules, toGrammar, List.map_append, List.map_map]
    rfl
  obtain ⟨kept, rest, split, keptNames, restNames⟩ := List.map_eq_append_iff.1 names
  have each := forall₂_of_names keyed (fun info mem => split ▸ List.mem_append_left _ mem)
    kinds keptNames
  have tokens := kind_of_rest arranged kinds
    (fun info mem => split ▸ List.mem_append_right _ mem) restNames
  suffices same : keptRules c.toGrammar.table c.start = kept by
    rw [same]
    exact ⟨rest, split, each, restNames, tokens⟩
  obtain ⟨v, starts, name⟩ := arranged.starts
  have distinct := arranged.names
  rw [← keptNames] at distinct
  have visible := arranged.kept
  obtain ⟨vs, whole⟩ := List.head?_eq_some_iff.1 starts
  rw [whole] at each visible
  obtain ⟨first, others, head, tail, rfl⟩ := List.forall₂_cons_right_iff.1 each
  have get : c.toGrammar.table.get? c.start = some first := by
    rw [← name, ← head.1]
    exact keyed.get?_name (split ▸ by simp)
  have others_kept : ∀ info ∈ others, (isKept info.kind && info.name != c.start) = true := by
    intro info mem
    obtain ⟨place, bound, rfl⟩ := List.mem_iff_getElem.1 mem
    have kind := (tail.get bound (tail.length_eq ▸ bound)).2
    rw [Bool.and_eq_true, bne_iff_ne]
    refine ⟨?_, fun same => ?_⟩
    · rw [show others[place].kind = _ from kind]
      exact visible _ (List.getElem_mem _)
    · rw [List.map_cons, List.nodup_cons, head.1, name, ← same] at distinct
      exact distinct.1 (List.mem_map_of_mem mem)
  have first_left : ¬ (isKept first.kind && first.name != c.start) = true := by
    rw [head.1, name]
    simp
  have rest_left : ∀ info ∈ rest, ¬ (isKept info.kind && info.name != c.start) = true := by
    intro info mem
    rw [tokens info mem]
    simp [isKept]
  rw [keptRules, split, get, List.filter_append, List.filter_cons, if_neg first_left,
    List.filter_eq_self.2 others_kept, List.filter_eq_nil_iff.2 rest_left, List.append_nil]
  rfl

/-- The only hidden rule there may be is the start rule. -/
theorem expandedInfos_eq_nil : expandedInfos c.start c.toGrammar.table.infos = [] := by
  obtain ⟨rest, split, -, -, tokens⟩ := exists_infos_eq arranged kinds
  rw [expandedInfos, List.filter_eq_nil_iff, split]
  intro info mem
  rw [Bool.and_eq_true, decide_eq_true_iff, bne_iff_ne]
  rintro ⟨hidden, other⟩
  rcases List.mem_append.1 mem with mem | mem
  · rcases List.mem_append.1 mem with mem | mem
    · exact other ((Symbols.keyed_resolve c.toGrammar).name_eq (Option.mem_toList.1 mem))
    · have kept := (List.mem_filter.1 mem).2
      rw [hidden] at kept
      cases kept
  · have token := tokens info mem
    rw [hidden] at token
    cases token

theorem get?_variable {id : Nat} {v : Variable} (found : c.vars[id]? = some v) :
    (c.toGrammar.naming c.start).vars.get? v.name = some id := by
  obtain ⟨rest, -, each, -, -⟩ := exists_infos_eq arranged kinds
  obtain ⟨bound, rfl⟩ := List.getElem?_eq_some_iff.1 found
  have place : id < (keptRules c.toGrammar.table c.start).length := each.length_eq ▸ bound
  exact (get?_vars (Symbols.keyed_resolve c.toGrammar) _ id).2
    ⟨_, List.getElem?_eq_getElem place, (each.get place bound).1⟩

theorem get?_eq_none_of_apart {name : String} (apart : ∀ v ∈ c.vars, v.name ≠ name) :
    (c.toGrammar.naming c.start).vars.get? name = none := by
  obtain ⟨rest, -, each, -, -⟩ := exists_infos_eq arranged kinds
  by_contra known
  obtain ⟨id, known⟩ := Option.ne_none_iff_exists'.1 known
  obtain ⟨info, found, rfl⟩ := (get?_vars (Symbols.keyed_resolve c.toGrammar) _ id).1 known
  obtain ⟨bound, rfl⟩ := List.getElem?_eq_some_iff.1 found
  have place : id < c.vars.length := each.length_eq ▸ bound
  exact apart _ (List.getElem_mem place) (each.get bound place).1.symm

end Kinds

end CompiledGrammar

end Productions
