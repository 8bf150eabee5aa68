import Productions.Proofs.Consistency

/-! Declared ambiguities of the written grammar. A hidden rule in a conflict set is replaced by the
variables it was expanded into, unless it is a variable itself, which only the start rule can be. -/
namespace Productions

open NormalForm

theorem Inlining.Reaches.isInlined {t : SymbolTable} {r : Rule} {k : String}
    (reached : Reaches t r k) : t.isInlined k = true := by
  induction reached with
  | here mem hidden => exact hidden
  | through mem hidden get rest ih => exact ih

namespace Grammar.Compiles

variable {g : Grammar} {settings : Settings} {start : String} {c : CompiledGrammar}

/-- A variable is named after a hidden rule only if it is the start rule. -/
theorem name_eq_start_of_hidden (h : g.Compiles settings start c) {v : Variable} (mem : v ∈ c.vars)
    (hidden : g.table.isInlined v.name = true) : v.name = c.start := by
  obtain ⟨info, kept, name, -, -⟩ := h.exists_of_mem_vars mem
  have keyed := Symbols.keyed_resolve g
  have get := get?_of_mem_keptRules keyed kept
  rw [h.start_eq, name]
  rcases List.mem_append.1 kept with first | rest
  · rw [Option.mem_toList] at first
    exact keyed.name_eq first
  · have visible := (List.mem_filter.1 rest).2
    rw [Bool.and_eq_true] at visible
    obtain ⟨info', get', kind⟩ := isInlined_iff.1 hidden
    rw [name, get] at get'
    rw [Option.some.inj get', kind] at visible
    cases visible.1

theorem isInlined_of_mem_inlined (h : g.Compiles settings start c) {v : Variable}
    (mem : v ∈ c.vars) {k : String} (used : k ∈ v.inlined) : g.table.isInlined k = true := by
  rw [h.vars_eq] at mem
  obtain ⟨info, kept, rfl⟩ := List.mem_map.1 mem
  have keyed := Symbols.keyed_resolve g
  obtain ⟨inlined, entry, by_, -⟩ := exists_inlined keyed
    (quiet_extrasRun h.clean.normal) (get?_of_mem_keptRules keyed kept)
  refine (by_.used k ?_).isInlined
  simpa [Naming.variableIn, OrderedMap.getD, entry] using used

end Grammar.Compiles

namespace CompiledGrammar

theorem exists_mem_conflicts_toGrammar (c : CompiledGrammar) (name : String) :
    (∃ set ∈ c.toGrammar.conflicts, name ∈ set)
      ↔ ∃ set ∈ c.conflicts, ∃ member ∈ set, name ∈ c.conflictMembers member := by
  simp only [toGrammar, List.mem_map]
  constructor
  · rintro ⟨_, ⟨set, declared, rfl⟩, mem⟩
    rw [OrderedSet.mem_toList, OrderedSet.mem_ofList, List.mem_flatMap] at mem
    exact ⟨set, declared, mem⟩
  · rintro ⟨set, declared, mem⟩
    refine ⟨_, ⟨set, declared, rfl⟩, ?_⟩
    rw [OrderedSet.mem_toList, OrderedSet.mem_ofList, List.mem_flatMap]
    exact mem

theorem isSome_findVariable?_iff {c : CompiledGrammar} {name : String} :
    (c.findVariable? name).isSome = true ↔ ∃ v ∈ c.vars, v.name = name := by
  rw [findVariable?, List.find?_isSome]
  simp only [beq_iff_eq]

end CompiledGrammar

namespace Grammar.Compiles

variable {g : Grammar} {settings : Settings} {start : String} {c : CompiledGrammar}

/-- The members of a conflict set that a variable stands for are itself and the hidden rules in it
that are no variable. -/
theorem mem_conflictMembers_iff (h : g.Compiles settings start c) {v : Variable} (mem : v ∈ c.vars)
    (member : String) : v.name ∈ c.conflictMembers member
      ↔ v.name = member ∨ member ≠ c.start ∧ member ∈ v.inlined := by
  have arranged := h.arranged
  unfold CompiledGrammar.conflictMembers
  by_cases own : (c.findVariable? member).isSome = true
  · rw [if_pos own, List.mem_singleton]
    refine ⟨.inl, fun stands => ?_⟩
    rcases stands with same | ⟨apart, used⟩
    · exact same
    · obtain ⟨w, known, rfl⟩ := CompiledGrammar.isSome_findVariable?_iff.1 own
      exact absurd (h.name_eq_start_of_hidden known (h.isInlined_of_mem_inlined mem used)) apart
  · have absent : ∀ w ∈ c.vars, w.name ≠ member := fun w known same =>
      own (CompiledGrammar.isSome_findVariable?_iff.2 ⟨w, known, same⟩)
    rw [if_neg own, List.mem_map]
    constructor
    · rintro ⟨w, kept, same⟩
      obtain ⟨known, used⟩ := List.mem_filter.1 kept
      obtain rfl := List.inj_on_of_nodup_map arranged.names known mem same
      obtain ⟨first, starts, name⟩ := arranged.starts
      refine .inr ⟨fun isStart => ?_, by simpa using used⟩
      exact absent first (List.mem_of_head? starts) (name.trans isStart.symm)
    · rintro (same | ⟨-, used⟩)
      · exact absurd same (absent v mem)
      · exact ⟨v, List.mem_filter.2 ⟨mem, by simpa using used⟩, rfl⟩

end Grammar.Compiles

namespace CompiledGrammar

variable {g : Grammar} {settings : Settings} {c : CompiledGrammar}

/-- The written grammar declares a variable ambiguous exactly if the compiled one declares the
variable or a hidden rule in it, the start rule apart. -/
theorem declared_iff (compiled : g.compile settings = .ok c) {v : Variable} (mem : v ∈ c.vars) :
    (∃ set ∈ c.toGrammar.conflicts, v.name ∈ set) ↔ ∃ set ∈ c.conflicts,
      v.name ∈ set ∨ ∃ hidden ∈ v.inlined, hidden ≠ c.start ∧ hidden ∈ set := by
  obtain ⟨start, h⟩ := Grammar.compile_eq_ok compiled
  rw [exists_mem_conflicts_toGrammar]
  refine exists_congr fun set => and_congr_right fun _ => ?_
  simp only [h.mem_conflictMembers_iff mem]
  constructor
  · rintro ⟨member, declared, rfl | ⟨apart, used⟩⟩
    · exact .inl declared
    · exact .inr ⟨member, used, apart, declared⟩
  · rintro (declared | ⟨hidden, used, apart, declared⟩)
    · exact ⟨v.name, declared, .inl rfl⟩
    · exact ⟨hidden, declared, .inr ⟨apart, used⟩⟩

/-- Lists without separators. The pair of two lists is hidden. -/
def pairedLists : Grammar where
  name := "lists"
  rules := [
    ⟨"pair", .seq [.symbol "list", .symbol "list"], true⟩,
    ⟨"list", .choice [.symbol "pair", .terminal (.literal "n")], false⟩]
  extras := []
  precedences := []
  conflicts := [["pair"]]
  externals := []
  inlined := []
  supertypes := []
  word := none

/-- With the list as the start rule, the pair is expanded away and the list is declared. -/
theorem declared_iff_pairedLists : ∃ c v, pairedLists.compile ⟨some "list", none⟩ = .ok c
    ∧ v ∈ c.vars ∧ ∃ set ∈ c.toGrammar.conflicts, v.name ∈ set := by
  have parts : (pairedLists.compile ⟨some "list", none⟩).toOption.map
      (fun c => (c.start, c.conflicts, c.vars.map fun v => (v.name, v.inlined)))
        = some ("list", [["pair"]], [("list", ["pair"])]) := by cbv
  cases compiled : pairedLists.compile ⟨some "list", none⟩ with
  | error f => simp [compiled, Except.toOption] at parts
  | ok c =>
    simp only [compiled, Except.toOption, Option.map_some, Option.some.injEq, Prod.mk.injEq]
      at parts
    obtain ⟨start, conflicts, vars⟩ := parts
    obtain ⟨v, only, same⟩ := List.map_eq_singleton_iff.1 vars
    rw [Prod.mk.injEq] at same
    have mem : v ∈ c.vars := by simp [only]
    refine ⟨c, v, rfl, mem, (declared_iff compiled mem).2 ⟨["pair"], by simp [conflicts], .inr ?_⟩⟩
    exact ⟨"pair", by simp [same.2], by simp [start], by simp⟩

/-- With the pair as the start rule, the list is declared by the pair in it, but the written grammar
declares only the pair and does not compile. -/
theorem exists_undeclared_list : ∃ c v, pairedLists.compile .default = .ok c ∧ v ∈ c.vars
    ∧ (∃ set ∈ c.conflicts, ∃ hidden ∈ v.inlined, hidden ∈ set)
    ∧ (¬ ∃ set ∈ c.toGrammar.conflicts, v.name ∈ set)
    ∧ ∀ d, c.toGrammar.compile .default ≠ .ok d := by
  have parts : (pairedLists.compile .default).toOption.map
      (fun c => (c.conflicts, c.toGrammar.conflicts, (c.toGrammar.compile .default).isOk,
        c.vars.map fun v => (v.name, v.inlined)))
        = some ([["pair"]], [["pair"]], false, [("pair", []), ("list", ["pair"])]) := by cbv
  cases compiled : pairedLists.compile .default with
  | error f => simp [compiled, Except.toOption] at parts
  | ok c =>
    simp only [compiled, Except.toOption, Option.map_some, Option.some.injEq, Prod.mk.injEq]
      at parts
    obtain ⟨conflicts, written, again, vars⟩ := parts
    obtain ⟨pair, rest, split, -, others⟩ := List.map_eq_cons_iff.1 vars
    obtain ⟨v, rfl, same⟩ := List.map_eq_singleton_iff.1 others
    rw [Prod.mk.injEq] at same
    refine ⟨c, v, rfl, by simp [split], ?_, by simp [written, same.1], fun d compiles => ?_⟩
    · exact ⟨["pair"], by simp [conflicts], "pair", by simp [same.2], by simp⟩
    · rw [compiles] at again
      cases again

end CompiledGrammar

end Productions
