import Productions.Proofs.Ambiguity.Tables
import Productions.Proofs.Recompilation.Arrangement

/-! Numbers in a compiled grammar. Every symbol has an entry in the table it points into, names tell
variables and named entries apart, and each table of ties fits the body of its variable. -/
namespace Productions

namespace Disambiguation

/-- One entry at most for each pair of places. -/
theorem nodup_meetings (alternatives : List Alternative) :
    ((meetings alternatives).map fun t => (t.reduce, t.shift)).Nodup := by
  have places (p : Alternative × Nat → Bool) :
      ((alternatives.zipIdx.filter p).map Prod.snd).Nodup := by
    refine List.Nodup.sublist (List.Sublist.map _ List.filter_sublist) ?_
    rw [List.zipIdx_map_snd]
    exact List.nodup_range'
  have pairs : ((meetings alternatives).map fun t => (t.reduce, t.shift))
      = ((alternatives.zipIdx.filter fun r => r.1.rightOpen).map Prod.snd).product
          ((alternatives.zipIdx.filter fun s => s.1.leftOpen).map Prod.snd) := by
    simp only [meetings, List.map_flatMap, List.map_map, List.product, List.flatMap_map]
    rfl
  rw [pairs]
  exact (places _).product (places _)

/-- Tables stand in the order of their variables. -/
theorem pairwise_tables (n : NormalForm) :
    ((tables n).map Disambiguation.id).Pairwise (· < ·) := by
  have each (v : Variable) (i : Nat) (d : Disambiguation) (closure : List (List Nat))
      (isNullable : Symbol → Bool) (made : ofVariable? closure isNullable v i = some d) :
      d.id = i := by
    simp only [ofVariable?, Option.ite_none_right_eq_some, Option.some.injEq] at made
    rw [← made.2]
  have ordered : n.vars.zipIdx.Pairwise fun a b => a.2 < b.2 := by
    rw [← List.pairwise_map, List.zipIdx_map_snd]
    exact List.pairwise_lt_range' 1
  rw [tables, List.pairwise_map, List.pairwise_filterMap]
  refine ordered.imp fun {a b} less d first e second => ?_
  rw [each _ _ _ _ _ first, each _ _ _ _ _ second]
  exact less

end Disambiguation

namespace CompiledGrammar

variable (c : CompiledGrammar)

def Points : Symbol → Prop
  | .rule id => id < c.vars.length
  | .lexical id => id < c.lexicon.length
  | .external id => id < c.externals.length

structure Describes (d : Disambiguation) (v : Variable) : Prop where
  rule : v.name = d.rule
  alternatives : d.alternatives.length = v.body.alternatives.length
  bounds : ∀ t ∈ d.tieBreaks, t.reduce < d.alternatives.length ∧ t.shift < d.alternatives.length
  once : (d.tieBreaks.map fun t => (t.reduce, t.shift)).Nodup

/-- The tables of a compiled grammar fit together. -/
structure Consistent : Prop where
  bodies : ∀ v ∈ c.vars, ∀ s ∈ v.body.symbols, c.Points s
  extras : ∀ s ∈ c.extras, c.Points s
  word : ∀ s ∈ c.word, c.Points s
  names : (c.vars.map Variable.name).Nodup
  starts : c.startVariable?.map Variable.name = some c.start
  entries : ((c.lexicon.filter LexicalEntry.named).map LexicalEntry.name).Nodup
  increasing : (c.precedence.map Disambiguation.id).Pairwise (· < ·)
  fits : ∀ d ∈ c.precedence, ∃ v, c.vars[d.id]? = some v ∧ Describes d v

variable {c}

theorem Stands.points {s : Symbol} (stands : c.Stands s) : c.Points s := by
  cases stands with
  | rule found => exact (List.getElem?_eq_some_iff.1 found).1
  | named found => exact (List.getElem?_eq_some_iff.1 found).1
  | anonymous found => exact (List.getElem?_eq_some_iff.1 found).1
  | outside found => exact (List.getElem?_eq_some_iff.1 found).1

namespace Arranged

variable (arranged : c.Arranged)

include arranged

theorem points_body {v : Variable} (mem : v ∈ c.vars) : ∀ s ∈ v.body.symbols, c.Points s := by
  intro s hs
  by_cases kind : v.kind = .token
  · obtain ⟨id, entry, body, found, -⟩ := arranged.tokens v mem kind
    rw [body, Expr.symbols, List.mem_singleton] at hs
    rw [hs]
    exact (List.getElem?_eq_some_iff.1 found).1
  · exact (arranged.bodies v mem kind s hs).points

theorem nodup_entries : ((c.lexicon.filter LexicalEntry.named).map LexicalEntry.name).Nodup := by
  rw [List.Nodup, List.pairwise_map, List.pairwise_filter]
  exact arranged.once.imp fun {e f} apart first second same => apart ⟨first, second, same⟩

end Arranged

end CompiledGrammar

namespace Symbols

theorem head?_foldl_declare (g : Grammar) (ds : List (Definition × Nat))
    (m : OrderedMap String SymbolInfo) :
    (ds.foldl (fun m d => m.insertIfNew d.1.name (declare g d.2 d.1)) m).keys.head?
      = m.keys.head?.or (ds.head?.map fun d => d.1.name) := by
  induction ds generalizing m with
  | nil => simp
  | cons d ds ih =>
    rw [List.foldl_cons, ih, List.head?_cons, Option.map_some]
    by_cases known : d.1.name ∈ m.keys
    · have some : m.keys.head?.isSome := by
        rw [List.isSome_head?]
        exact List.ne_nil_of_mem known
      rw [OrderedMap.insertIfNew, if_pos (OrderedMap.contains_iff.2 known),
        Option.or_of_isSome some, Option.or_of_isSome some]
    · rw [OrderedMap.keys, OrderedMap.entries_insertIfNew_of_new known, List.map_append,
        List.head?_append, Option.or_assoc]
      rfl

/-- The first symbol of the table is the first rule. -/
theorem head?_infos_resolve (g : Grammar) :
    (resolve g).1.infos.head?.map SymbolInfo.name = g.rules.head?.map Definition.name := by
  have keys : (resolve g).1.rules.keys = (declaredRules g).keys :=
    OrderedMap.keys_mapValues _ _
  rw [← List.head?_map, (keyed_resolve g).names_eq, keys, declaredRules, head?_foldl_declare]
  cases g.rules <;> rfl

end Symbols

namespace Grammar.Compiles

open NormalForm

variable {g : Grammar} {settings : Settings} {start : String} {c : CompiledGrammar}

/-- The first variable is the start rule. -/
theorem start_eq (h : g.Compiles settings start c) : c.start = start := by
  obtain ⟨info, get⟩ := h.exists_start
  obtain ⟨v, first, name⟩ := h.arranged.starts
  have names := congrArg List.head? h.names_eq
  rw [List.head?_map, first, List.head?_map, keptRules, get] at names
  rw [← name, Option.some.inj names]
  exact (Symbols.keyed_resolve g).name_eq get

theorem fits (h : g.Compiles settings start c) {d : Disambiguation} (mem : d ∈ c.precedence) :
    ∃ v, c.vars[d.id]? = some v ∧ CompiledGrammar.Describes d v := by
  have tables : c.precedence = Disambiguation.tables (g.settled settings start) := by
    rw [h.result]
    rfl
  rw [tables] at mem
  obtain ⟨i, v, lookup, -, rfl⟩ := Disambiguation.mem_tables.1 mem
  have found : c.vars[i]? = some
      { v with fields := (g.settled settings start).fieldsOf v.body } := by
    rw [h.result, CompiledGrammar.ofNormalForm, List.getElem?_map, lookup]
    rfl
  refine ⟨_, found, rfl, List.length_map _, fun t tie => ?_, Disambiguation.nodup_meetings _⟩
  obtain ⟨a, b, reduce, shift, -⟩ := Disambiguation.mem_meetings.1 tie
  exact ⟨(List.getElem?_eq_some_iff.1 reduce).1, (List.getElem?_eq_some_iff.1 shift).1⟩

end Grammar.Compiles

namespace Grammar

variable {g : Grammar} {settings : Settings} {c : CompiledGrammar}

/-- A grammar that compiles starts with the given start rule, or else with its first rule, and every
number in it has its entry. -/
theorem consistent_of_compile (compiled : g.compile settings = .ok c) :
    c.Consistent ∧ settings.start.or (g.rules.head?.map Definition.name) = some c.start := by
  obtain ⟨start, h⟩ := compile_eq_ok compiled
  have arranged := h.arranged
  have ordered : (c.precedence.map Disambiguation.id).Pairwise (· < ·) := by
    rw [h.result]
    exact Disambiguation.pairwise_tables _
  obtain ⟨v, first, name⟩ := arranged.starts
  constructor
  · exact {
      bodies := fun v mem => arranged.points_body mem
      extras := fun s mem => (arranged.extras s mem).points
      word := fun s given => (arranged.word s given).1.points
      names := arranged.names
      starts := by rw [CompiledGrammar.startVariable?, first, Option.map_some, name]
      entries := arranged.nodup_entries
      increasing := ordered
      fits := fun d mem => h.fits mem }
  · rw [h.start_eq, ← Symbols.head?_infos_resolve]
    exact (startRule_eq_ok (Symbols.keyed_resolve g) h.first).1

/-- Sums of names, which an outside scanner ends. -/
def scannedSums : Grammar where
  name := "sums"
  rules := [
    ⟨"file", .repeated (.seq [.symbol "sum", .symbol "end"]) .zeroOrMore, false⟩,
    ⟨"sum", .choice [.prec (.integer 1) .left (.seq [.symbol "sum", .terminal (.literal "+"),
      .symbol "sum"]), .symbol "name"], false⟩,
    ⟨"name", .terminal (.literal "n"), false⟩]
  extras := [.terminal (.literal " ")]
  precedences := []
  conflicts := []
  externals := [.symbol "end"]
  inlined := []
  supertypes := []
  word := some "name"

theorem consistent_scannedSums : ∃ c, scannedSums.compile ⟨some "sum", none⟩ = .ok c
    ∧ c.Consistent ∧ c.start = "sum" := by
  obtain ⟨c, compiled⟩ : ∃ c, scannedSums.compile ⟨some "sum", none⟩ = .ok c :=
    exists_ok_of_isOk (by cbv)
  obtain ⟨consistent, start⟩ := consistent_of_compile compiled
  exact ⟨c, compiled, consistent, (Option.some.inj start).symm⟩

end Grammar

end Productions
