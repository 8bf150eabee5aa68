import Productions.Proofs.Ambiguity.Forms
import Productions.Proofs.Reachability
import Productions.Proofs.Validity

/-! Ambiguities of a variable with itself. Two alternatives meet if one can end and the other can
begin with a symbol that stands for the variable. Where the symbols stand for it by choices and
annotations only, a compilation that succeeds leaves no such meeting undeclared. A rule that derives
the variable alone through a sequence with empty neighbours goes unnoticed. -/
namespace Productions

open Relation

namespace Expr

inductive Offers : Expr → ℕ → Prop where
  | symbol (i) : Offers (.symbol (.rule i)) i
  | choice {e es i} (mem : e ∈ es) (inner : Offers e i) : Offers (.choice es) i
  | prec {v a e i} (inner : Offers e i) : Offers (.prec v a e) i
  | aliased {e v m i} (inner : Offers e i) : Offers (.aliased e v m) i
  | field {m e i} (inner : Offers e i) : Offers (.field m e) i

mutual

theorem mem_unitIds_iff {i : ℕ} : (e : Expr) → (i ∈ e.unitIds ↔ e.Offers i)
  | symbol (.rule j) => by
    rw [unitIds, List.mem_singleton]
    constructor
    · rintro rfl
      exact .symbol i
    · rintro ⟨⟩
      rfl
  | symbol (.lexical _) | symbol (.external _) | seq _ | repeated _ =>
    iff_of_false (List.not_mem_nil) nofun
  | choice members => by
    rw [unitIds, mem_unitIdsAll_iff members]
    constructor
    · rintro ⟨e, he, inner⟩
      exact .choice he inner
    · rintro (_ | ⟨he, inner⟩)
      exact ⟨_, he, inner⟩
  | prec _ _ content => (mem_unitIds_iff content).trans ⟨.prec, fun | .prec inner => inner⟩
  | aliased content _ _ =>
    (mem_unitIds_iff content).trans ⟨.aliased, fun | .aliased inner => inner⟩
  | field _ content => (mem_unitIds_iff content).trans ⟨.field, fun | .field inner => inner⟩

theorem mem_unitIdsAll_iff {i : ℕ} : (es : List Expr) →
    (i ∈ unitIdsAll es ↔ ∃ e ∈ es, e.Offers i)
  | [] => by simp [unitIdsAll]
  | e :: es => by
    rw [unitIdsAll, List.mem_append, mem_unitIds_iff e, mem_unitIdsAll_iff es]
    simp

end

end Expr

namespace Numbering

variable {n : Numbering}

def Chooses (n : Numbering) : ℕ → ℕ → Prop :=
  ReflTransGen fun i j => ∃ body, n.bodies[i]? = some body ∧ body.Offers j

/-- A variable derives another one alone: everything around it derives the empty text, in each
body on the way. -/
def DerivesAlone (n : Numbering) : ℕ → ℕ → Prop :=
  ReflTransGen fun i j => ∃ body x y, n.bodies[i]? = some body ∧ x ++ .rule j :: y ∈ body.forms
    ∧ ∀ s ∈ x ++ y, (Expr.symbol s).DerivesEmpty n

/-- One alternative can end and another one can begin with symbols that stand for a variable. -/
structure Meet (n : Numbering) (stands : ℕ → ℕ → Prop) (i : ℕ) (r s : Expr) : Prop where
  ends : ∃ u, stands u i ∧ r.EndsIn n (.rule u)
  begins : ∃ u, stands u i ∧ s.BeginsWith n (.rule u)

end Numbering

namespace Disambiguation

variable {bodies : List Expr}

theorem get?_unitGraph (i : ℕ) :
    (unitGraph bodies).get? i = bodies[i]?.map fun body => OrderedSet.ofList body.unitIds := by
  have keys : (bodies.zipIdx.map fun b => (b.2, OrderedSet.ofList b.1.unitIds)).map Prod.fst
      = List.range bodies.length := by
    rw [List.map_map, List.range_eq_range', ← List.zipIdx_map_snd 0 bodies]
    rfl
  have nodup : ((bodies.zipIdx.map fun b => (b.2, OrderedSet.ofList b.1.unitIds)).map
      Prod.fst).Nodup := keys ▸ List.nodup_range
  rw [unitGraph, OrderedMap.get?_ofList nodup]
  refine Option.ext fun set => ?_
  have entry := OrderedMap.get?_eq_some_iff (m := ⟨_, nodup⟩) (k := i) (a := set)
  refine entry.trans ?_
  simp only [List.mem_map, Prod.mk.injEq, Option.map_eq_some_iff]
  constructor
  · rintro ⟨⟨body, _⟩, mem, rfl, rfl⟩
    exact ⟨body, List.mem_zipIdx_iff_getElem?.1 mem, rfl⟩
  · rintro ⟨body, lookup, rfl⟩
    exact ⟨(body, i), List.mem_zipIdx_iff_getElem?.2 lookup, rfl, rfl⟩

theorem mem_keys_unitGraph {i : ℕ} : i ∈ (unitGraph bodies).keys ↔ i < bodies.length := by
  rw [← OrderedMap.get?_isSome_iff, get?_unitGraph, Option.isSome_map]
  simp

theorem edge_unitGraph_iff {i j : ℕ} : (unitGraph bodies).Edge i j
    ↔ (∃ body, bodies[i]? = some body ∧ body.Offers j) ∧ j < bodies.length := by
  rw [Graph.Edge, mem_keys_unitGraph, Graph.successors, OrderedMap.getD, get?_unitGraph]
  refine and_congr_left fun _ => ?_
  cases lookup : bodies[i]? with
  | none => simp
  | some body => simp [OrderedSet.mem_toList, OrderedSet.mem_ofList, Expr.mem_unitIds_iff]

/-- The variables found to stand for one are those that come to it by choices. -/
theorem standsFor_iff_chooses {n : Numbering} {i j : ℕ} (known : j < n.bodies.length) :
    standsFor (unitClosure n.bodies) j (.rule i) = true ↔ n.Chooses i j := by
  have path : (i < n.bodies.length ∧ ReflTransGen (unitGraph n.bodies).Edge i j)
      ↔ n.Chooses i j := by
    constructor
    · rintro ⟨-, edges⟩
      induction edges with
      | refl => exact .refl
      | @tail k j _ edge ih =>
        obtain ⟨offered, -⟩ := edge_unitGraph_iff.1 edge
        have below := (List.getElem?_eq_some_iff.1 offered.choose_spec.1).1
        exact (ih below).tail offered
    · intro h
      induction h using ReflTransGen.head_induction_on with
      | refl => exact ⟨known, .refl⟩
      | @head i k step _ ih =>
        have below := (List.getElem?_eq_some_iff.1 step.choose_spec.1).1
        exact ⟨below, .head (edge_unitGraph_iff.2 ⟨step, ih.1⟩) ih.2⟩
  rw [← path, standsFor, unitClosure]
  by_cases below : i < n.bodies.length
  · rw [List.getElem?_map, List.getElem?_range below, Option.map_some, Option.any_some,
      List.contains_iff_mem, Graph.mem_reach_iff]
    simp [mem_keys_unitGraph, below]
  · rw [List.getElem?_map, List.getElem?_eq_none (by simpa using below)]
    simp [below]

theorem of_bare {e : Expr} (bare : ∀ value assoc content, e ≠ .prec value assoc content) :
    Annotation.of e = .empty := by
  have collected : Annotation.collect .empty e = .empty := by
    cases e with
    | prec value assoc content => exact absurd rfl (bare value assoc content)
    | _ => unfold Annotation.collect; simp
  unfold Annotation.of
  rw [collected]
  rfl

/-- Two open alternatives without annotations leave an unresolved pair in a table. -/
theorem exists_unresolved {closure : List (List ℕ)} {isNullable : Symbol → Bool} {v : Variable}
    {id : ℕ} {r s : Expr} (hr : r ∈ v.body.alternatives) (hs : s ∈ v.body.alternatives)
    (bareR : ∀ value assoc content, r ≠ .prec value assoc content)
    (bareS : ∀ value assoc content, s ≠ .prec value assoc content)
    (refers : r.symbols.any (standsFor closure id) = true)
    (right : r.endsWith (standsFor closure id) isNullable = true)
    (left : s.startsWith (standsFor closure id) isNullable = true) :
    ∃ d, ofVariable? closure isNullable v id = some d ∧ d.id = id ∧ d.unresolved ≠ [] := by
  have wanted : isWanted (v.body.alternatives.map
      (alternative (standsFor closure id) isNullable)) = true := by
    rw [isWanted, List.any_eq_true]
    refine ⟨_, List.mem_map_of_mem hr, ?_⟩
    simp only [alternative, refers, Bool.true_or]
  refine ⟨_, by rw [ofVariable?, if_pos wanted], rfl, ?_⟩
  obtain ⟨i, foundR⟩ := List.getElem?_of_mem hr
  obtain ⟨j, foundS⟩ := List.getElem?_of_mem hs
  have placeR : (alternative (standsFor closure id) isNullable r, i)
      ∈ (v.body.alternatives.map (alternative (standsFor closure id) isNullable)).zipIdx := by
    rw [List.mem_zipIdx_iff_getElem?, List.getElem?_map, foundR]
    rfl
  have placeS : (alternative (standsFor closure id) isNullable s, j)
      ∈ (v.body.alternatives.map (alternative (standsFor closure id) isNullable)).zipIdx := by
    rw [List.mem_zipIdx_iff_getElem?, List.getElem?_map, foundS]
    rfl
  have unresolved : Annotation.resolve (.of r) (.of s) = .unresolved := by
    rw [of_bare bareR, of_bare bareS]
    rfl
  refine List.ne_nil_of_mem (a := ⟨i, j, .unresolved⟩) (List.mem_filter.2 ⟨?_, rfl⟩)
  refine List.mem_flatMap.2 ⟨_, List.mem_filter.2 ⟨placeR, right⟩, ?_⟩
  refine List.mem_map.2 ⟨_, List.mem_filter.2 ⟨placeS, left⟩, ?_⟩
  simp only [alternative, unresolved]

end Disambiguation

namespace CompiledGrammar

open Productions.Numbering

variable {g : Grammar} {settings : Settings} {start : String} {c : CompiledGrammar}

/-- Two open alternatives without annotations are reported unless a conflict set covers them. -/
theorem covers_of_meet (h : g.Compiles settings start c) {i : ℕ} {v : Variable}
    (lookup : (g.settled settings start).vars[i]? = some v) {r s : Expr}
    (hr : r ∈ v.body.alternatives) (hs : s ∈ v.body.alternatives)
    (bareR : ∀ value assoc content, r ≠ .prec value assoc content)
    (bareS : ∀ value assoc content, s ≠ .prec value assoc content)
    (meet : Meet (g.settled settings start).numbering
      (g.settled settings start).numbering.Chooses i r s) :
    g.conflictSets.covers v = true := by
  let n := (g.settled settings start).numbering
  let nullable := n.verdict fun _ => false
  let target := Disambiguation.standsFor (Disambiguation.unitClosure n.bodies) i
  have known : i < n.bodies.length := by
    have below := (List.getElem?_eq_some_iff.1 lookup).1
    simpa [n, NormalForm.numbering, NormalForm.bodies] using below
  have stands : ∀ u, n.Chooses u i → target (.rule u) = true := fun u chosen =>
    (Disambiguation.standsFor_iff_chooses known).2 chosen
  have empty : ∀ x : Symbol, (Expr.symbol x).DerivesEmpty n → nullable x = true := fun x hx =>
    (nullable_iff_derivesEmpty h.judges (.symbol x)).2 hx
  obtain ⟨⟨u, hu, x, y, form, after⟩, w, hw, x', y', form', before⟩ := meet
  have right : r.endsWith target nullable = true :=
    Expr.endsWith_of_form (stands u hu) r form fun t ht => empty t (after t ht)
  have left : s.startsWith target nullable = true :=
    Expr.startsWith_of_form (stands w hw) s form' fun t ht => empty t (before t ht)
  have refers : r.symbols.any target = true :=
    List.any_eq_true.2 ⟨_, Expr.mem_symbols_of_form r form (by simp), stands u hu⟩
  obtain ⟨d, found, rfl, unresolved⟩ :=
    Disambiguation.exists_unresolved hr hs bareR bareS refers right left
  have mem : d ∈ Disambiguation.tables (g.settled settings start) :=
    List.mem_filterMap.2 ⟨(v, d.id), List.mem_zipIdx_iff_getElem?.2 lookup, found⟩
  exact Validation.ambiguityReport?_eq_none_iff.1 (h.quiet.2.2 d mem) unresolved v lookup

/-- In a grammar that compiles, no two alternatives of a variable that no conflict set covers meet
in rules that come to the variable by choices and annotations, unless one is annotated. -/
theorem not_meet (compiled : g.compile settings = .ok c) {i : ℕ} {v : Variable}
    (lookup : c.vars[i]? = some v)
    (uncovered : ∀ set ∈ c.conflicts, v.name ∉ set ∧ ∀ hidden ∈ v.inlined, hidden ∉ set)
    {r s : Expr} (hr : r ∈ v.body.alternatives) (hs : s ∈ v.body.alternatives)
    (bareR : ∀ value assoc content, r ≠ .prec value assoc content)
    (bareS : ∀ value assoc content, s ≠ .prec value assoc content) :
    ¬ Meet c.numbering c.numbering.Chooses i r s := by
  intro meet
  obtain ⟨start, h⟩ := Grammar.compile_eq_ok compiled
  have sets : c.conflicts = g.conflictSets.sets := by rw [h.result]; rfl
  have vars : c.vars = (g.settled settings start).vars.map
      fun v => { v with fields := (g.settled settings start).fieldsOf v.body } := by
    rw [h.result]
    rfl
  rw [vars, List.getElem?_map, Option.map_eq_some_iff] at lookup
  obtain ⟨v, found, rfl⟩ := lookup
  rw [numbering_eq h] at meet
  have covered := covers_of_meet h found hr hs bareR bareS meet
  rw [Conflicts.covers, Bool.or_eq_true, List.any_eq_true] at covered
  simp only [Conflicts.contains, List.any_eq_true, List.contains_iff_mem] at covered
  rcases covered with ⟨set, hset, mem⟩ | ⟨hidden, used, set, hset, mem⟩
  · exact (uncovered set (sets ▸ hset)).1 mem
  · exact (uncovered set (sets ▸ hset)).2 hidden used mem

/-- Sums of operands that may carry a mark. An operand without a mark is an expression alone. -/
def operands : Grammar where
  name := "operands"
  rules := [
    ⟨"expr", .choice [.seq [.symbol "operand", .terminal (.literal "+"), .symbol "operand"],
      .terminal (.literal "n")], false⟩,
    ⟨"operand", .seq [.symbol "expr", .optional (.terminal (.literal "!"))], false⟩]
  extras := []
  precedences := []
  conflicts := []
  externals := []
  inlined := []
  supertypes := []
  word := none

def sum : Expr := .seq [.symbol (.rule 1), .symbol (.lexical 0), .symbol (.rule 1)]

def marked : Expr := .seq [.symbol (.rule 0), .choice [.symbol (.lexical 2), .seq []]]

theorem compile_operands : ∃ c, operands.compile .default = .ok c ∧ c.conflicts = []
    ∧ ∃ expr operand, c.vars = [expr, operand] ∧ expr.inlined = []
      ∧ expr.body = .choice [sum, .symbol (.lexical 1)] ∧ operand.body = marked := by
  have parts : (operands.compile .default).toOption.map
      (fun c => (c.vars.map fun v => (v.body, v.inlined), c.conflicts)) = some
        ([(.choice [sum, .symbol (.lexical 1)], []), (marked, [])], []) := by cbv
  cases compiled : operands.compile .default with
  | error f => simp [compiled, Except.toOption] at parts
  | ok c =>
    simp only [compiled, Except.toOption, Option.map_some, Option.some.injEq, Prod.mk.injEq]
      at parts
    obtain ⟨vars, conflicts⟩ := parts
    obtain ⟨expr, rest, split, first, others⟩ := List.map_eq_cons_iff.1 vars
    obtain ⟨operand, rfl, second⟩ := List.map_eq_singleton_iff.1 others
    rw [Prod.mk.injEq] at first second
    exact ⟨c, rfl, conflicts, expr, operand, split, first.2, first.1, second.1⟩

theorem not_meet_operands : ∃ c v, operands.compile .default = .ok c ∧ c.vars[0]? = some v
    ∧ sum ∈ v.body.alternatives ∧ ¬ Meet c.numbering c.numbering.Chooses 0 sum sum := by
  obtain ⟨c, compiled, conflicts, expr, operand, vars, -, body, -⟩ := compile_operands
  have lookup : c.vars[0]? = some expr := by rw [vars]; rfl
  have mem : sum ∈ expr.body.alternatives := by simp [body, Expr.alternatives]
  refine ⟨c, expr, compiled, lookup, mem, ?_⟩
  exact not_meet compiled lookup (by simp [conflicts]) mem mem nofun nofun

/-- An operand is an expression alone where it has no mark, and a sum begins and ends with
operands. The grammar compiles all the same, and declares no conflict. -/
theorem exists_meet_operands : ∃ c v, operands.compile .default = .ok c ∧ c.vars[0]? = some v
    ∧ (∀ set ∈ c.conflicts, v.name ∉ set ∧ ∀ hidden ∈ v.inlined, hidden ∉ set)
    ∧ sum ∈ v.body.alternatives ∧ (∀ value assoc content, sum ≠ .prec value assoc content)
    ∧ Meet c.numbering c.numbering.DerivesAlone 0 sum sum := by
  obtain ⟨c, compiled, conflicts, expr, operand, vars, -, body, second⟩ := compile_operands
  have lookup : c.vars[0]? = some expr := by rw [vars]; rfl
  have mem : sum ∈ expr.body.alternatives := by simp [body, Expr.alternatives]
  have found : c.numbering.bodies[1]? = some marked := by simp [numbering, vars, second]
  have unmarked : [.rule 0] ∈ marked.forms :=
    Expr.mem_seqForms_cons.2 ⟨[.rule 0], rfl, [], Expr.mem_seqForms_cons.2
      ⟨[], .inr (.inl rfl), [], rfl, rfl⟩, rfl⟩
  have alone : c.numbering.DerivesAlone 1 0 :=
    .single ⟨marked, [], [], found, unmarked, by simp⟩
  have form : [.rule 1, .lexical 0, .rule 1] ∈ sum.forms :=
    Expr.mem_seqForms_cons.2 ⟨[.rule 1], rfl, [.lexical 0, .rule 1], Expr.mem_seqForms_cons.2
      ⟨[.lexical 0], rfl, [.rule 1], Expr.mem_seqForms_cons.2 ⟨[.rule 1], rfl, [], rfl, rfl⟩, rfl⟩,
      rfl⟩
  have bare (value : Precedence) (assoc : Assoc) (content : Expr) :
      sum ≠ .prec value assoc content := by
    intro same
    cases same
  refine ⟨c, expr, compiled, lookup, by simp [conflicts], mem, bare, ?_, ?_⟩
  · exact ⟨1, alone, [.rule 1, .lexical 0], [], form, by simp⟩
  · exact ⟨1, alone, [], [.lexical 0, .rule 1], form, by simp⟩

end CompiledGrammar

end Productions
