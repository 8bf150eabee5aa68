import Mathlib.Data.Fintype.Card
import Mathlib.Data.Fintype.EquivFin
import Mathlib.Data.Fintype.Sets
import Mathlib.Data.List.Dedup
import Mathlib.Data.Set.Function
import Mathlib.Logic.Relation
import Mathlib.Order.WellFounded
import Productions.Proofs.Precedence.Placement

/-! Merged orderings. They contradict each other exactly if some name comes above itself on a way
through them. Otherwise every name gets a level of its own, from the number of names down to 1, and
each ordering is listed from higher to lower levels. -/
namespace Productions.Orderings

open Relation Placement

variable {orderings : List (List String)}

/-- `a` stands right in front of `b` in some ordering. -/
def DirectlyAbove (orderings : List (List String)) (a b : String) : Prop :=
  ∃ ordering ∈ orderings, ∃ i, ordering[i]? = some a ∧ ordering[i + 1]? = some b

def Acyclic (orderings : List (List String)) : Prop :=
  ∀ a, ¬ TransGen (DirectlyAbove orderings) a a

/-- Levels that put the names of all orderings into one order. -/
structure Merged (orderings : List (List String)) (levels : Levels) : Prop where
  names : ∀ name, name ∈ levels.keys ↔ ∃ ordering ∈ orderings, name ∈ ordering
  count : levels.size = orderings.flatten.dedup.length
  bijective : Set.BijOn (fun name => (levels.getD name default).level) {name | name ∈ levels.keys}
    {level : Int | 1 ≤ level ∧ level ≤ levels.size}
  descending : levels.values.map Level.level
    = (List.range levels.size).reverse.map fun k : Nat => (k : Int) + 1
  plain : ∀ level ∈ levels.values, level.assoc = .none
  ordered : ∀ ordering ∈ orderings, ∀ (i j : Nat) a b, i < j → ordering[i]? = some a →
    ordering[j]? = some b → ∃ above below, levels.get? a = some above
      ∧ levels.get? b = some below ∧ below.level < above.level

theorem mem_neighbours_iff {a b : String} {ordering : List String} :
    (a, b) ∈ neighbours ordering ↔ ∃ i, ordering[i]? = some a ∧ ordering[i + 1]? = some b := by
  induction ordering with
  | nil => simp [neighbours]
  | cons x rest ih =>
    cases rest with
    | nil => simp [neighbours]
    | cons y rest =>
      rw [neighbours, List.mem_cons, ih]
      constructor
      · rintro (first | ⟨i, hi⟩)
        · cases first
          exact ⟨0, rfl, rfl⟩
        · exact ⟨i + 1, hi⟩
      · rintro ⟨i, hi⟩
        cases i with
        | zero =>
          left
          simpa [eq_comm] using hi
        | succ i => exact .inr ⟨i, hi⟩

theorem mem_above_iff {a b : String} : (a, b) ∈ above orderings ↔ DirectlyAbove orderings a b := by
  simp only [above, OrderedSet.mem_ofList, List.mem_flatMap, mem_neighbours_iff]
  rfl

theorem mem_names_iff {a : String} :
    a ∈ names orderings ↔ ∃ ordering ∈ orderings, a ∈ ordering := by
  simp [names]

theorem inside (a b : String) (h : (a, b) ∈ above orderings) :
    a ∈ names orderings ∧ b ∈ names orderings := by
  obtain ⟨ordering, mem, i, first, second⟩ := mem_above_iff.1 h
  exact ⟨mem_names_iff.2 ⟨ordering, mem, List.mem_of_getElem? first⟩,
    mem_names_iff.2 ⟨ordering, mem, List.mem_of_getElem? second⟩⟩

theorem size_names : (names orderings).size = orderings.flatten.dedup.length := by
  have same : (names orderings).toList.Perm orderings.flatten.dedup := by
    refine (List.perm_ext_iff_of_nodup (names orderings).nodup (List.nodup_dedup _)).2 fun a => ?_
    simp [names]
  exact same.length_eq

/-- An entry of an ordering comes above all later ones. -/
theorem transGen_of_lt {ordering : List String} (mem : ordering ∈ orderings) {i : Nat} {a : String}
    (first : ordering[i]? = some a) (k : Nat) {b : String}
    (second : ordering[i + k + 1]? = some b) : TransGen (DirectlyAbove orderings) a b := by
  induction k generalizing b with
  | zero => exact .single ⟨ordering, mem, i, first, second⟩
  | succ k ih =>
    have inside : i + k + 1 < ordering.length := by
      have bound := (List.getElem?_eq_some_iff.1 second).1
      omega
    have between := List.getElem?_eq_getElem inside
    exact .tail (ih between) ⟨ordering, mem, i + k + 1, between, second⟩

/-- Where everything in a list has something of the list above it, some of it goes round. -/
theorem exists_cycle {α : Type} [DecidableEq α] {R : α → α → Prop} {left : List α}
    (nonempty : left ≠ []) (back : ∀ b ∈ left, ∃ a ∈ left, R a b) : ∃ a ∈ left, TransGen R a a := by
  by_contra none
  let below : {x // x ∈ left} → {x // x ∈ left} → Prop := fun a b => TransGen R a b
  have trans : IsTrans _ below := ⟨fun _ _ _ => TransGen.trans⟩
  have irrefl : Std.Irrefl below := ⟨fun a cycle => none ⟨a, a.2, cycle⟩⟩
  have wellFounded : WellFounded below := Finite.wellFounded_of_trans_of_irrefl below
  obtain ⟨first, mem⟩ := List.exists_mem_of_ne_nil left nonempty
  obtain ⟨b, -, least⟩ := wellFounded.has_min Set.univ ⟨⟨first, mem⟩, trivial⟩
  obtain ⟨a, mem, step⟩ := back b b.2
  exact least ⟨a, mem⟩ trivial (.single step)

theorem progress_placement (orderings : List (List String)) :
    Progress (above orderings) (names orderings) (placement orderings) :=
  (progress_start inside).run inside _

theorem queue_placement (orderings : List (List String)) : (placement orderings).queue = [] :=
  queue_run_size inside (progress_start inside)

theorem nodup_placed (orderings : List (List String)) : (placement orderings).placed.Nodup :=
  (List.nodup_append.1 (progress_placement orderings).nodup).1

theorem placed_subset (orderings : List (List String)) :
    (placement orderings).placed ⊆ (names orderings).toList := by
  intro b placed
  exact (((progress_placement orderings).free b).1 (List.mem_append_left _ placed)).1

/-- As many names have been placed as there are if and only if each one has been. -/
theorem length_placed_iff : (placement orderings).placed.length = (names orderings).size
    ↔ ∀ b ∈ names orderings, b ∈ (placement orderings).placed := by
  have part := List.subperm_of_subset (nodup_placed orderings) (placed_subset orderings)
  constructor
  · intro long b named
    exact (part.perm_of_length_le long.ge).mem_iff.2 named
  · intro all
    have back := List.subperm_of_subset (names orderings).nodup all
    exact part.length_le.antisymm back.length_le

/-- A name that has been placed comes behind all names above it. -/
theorem idxOf_lt_of_transGen {a b : String} (path : TransGen (DirectlyAbove orderings) a b)
    (placed : b ∈ (placement orderings).placed) : a ∈ (placement orderings).placed
      ∧ (placement orderings).placed.idxOf a < (placement orderings).placed.idxOf b := by
  have step {a b : String} (h : DirectlyAbove orderings a b)
      (placed : b ∈ (placement orderings).placed) : a ∈ (placement orderings).placed
        ∧ (placement orderings).placed.idxOf a < (placement orderings).placed.idxOf b := by
    have before := (progress_placement orderings).idxOf_lt placed (mem_above_iff.2 h)
    exact ⟨List.idxOf_lt_length_iff.1 (before.trans (List.idxOf_lt_length_of_mem placed)), before⟩
  induction path with
  | single h => exact step h placed
  | tail _ h ih =>
    obtain ⟨between, later⟩ := step h placed
    obtain ⟨first, before⟩ := ih between
    exact ⟨first, before.trans later⟩

def unplaced (orderings : List (List String)) : List String :=
  (names orderings).toList.filter fun b => b ∉ (placement orderings).placed

theorem mem_unplaced_iff {b : String} :
    b ∈ unplaced orderings ↔ b ∈ names orderings ∧ b ∉ (placement orderings).placed := by
  simp [unplaced]

/-- A name that is left has one directly above it that is left. -/
theorem exists_directlyAbove_unplaced {b : String} (left : b ∈ unplaced orderings) :
    ∃ a ∈ unplaced orderings, DirectlyAbove orderings a b := by
  obtain ⟨named, missing⟩ := mem_unplaced_iff.1 left
  obtain ⟨a, apart, above⟩ :=
    (progress_placement orderings).exists_above (queue_placement orderings) named missing
  exact ⟨a, mem_unplaced_iff.2 ⟨(inside a b above).1, apart⟩, mem_above_iff.1 above⟩

theorem all_placed_iff :
    (∀ b ∈ names orderings, b ∈ (placement orderings).placed) ↔ Acyclic orderings := by
  constructor
  · intro all a cycle
    obtain ⟨b, step, -⟩ := TransGen.head'_iff.1 cycle
    have placed := all a (inside a b (mem_above_iff.2 step)).1
    exact (idxOf_lt_of_transGen cycle placed).2.false
  · intro acyclic b named
    by_contra missing
    have left : b ∈ unplaced orderings := mem_unplaced_iff.2 ⟨named, missing⟩
    obtain ⟨a, -, cycle⟩ := exists_cycle (R := DirectlyAbove orderings) (List.ne_nil_of_mem left)
      fun _ => exists_directlyAbove_unplaced
    exact acyclic a cycle

theorem keys_rank (placed : List String) : (rank placed).map Prod.fst = placed := by
  induction placed with
  | nil => rfl
  | cons a rest ih => rw [rank, List.map_cons, ih]

theorem levels_rank (placed : List String) : (rank placed).map (fun e => e.2.level)
    = (List.range placed.length).reverse.map fun k : Nat => (k : Int) + 1 := by
  induction placed with
  | nil => rfl
  | cons a rest ih =>
    rw [rank, List.map_cons, ih, List.length_cons, List.range_succ, List.reverse_append]
    rfl

theorem assoc_rank {placed : List String} {e : String × Level} (mem : e ∈ rank placed) :
    e.2.assoc = .none := by
  induction placed with
  | nil => cases mem
  | cons a rest ih =>
    rcases List.mem_cons.1 mem with rfl | mem
    · rfl
    · exact ih mem

theorem mem_rank {placed : List String} {a : String} (mem : a ∈ placed) :
    (a, ⟨(placed.length : Int) - placed.idxOf a, .none⟩) ∈ rank placed := by
  induction placed with
  | nil => cases mem
  | cons b rest ih =>
    rw [rank, List.length_cons]
    by_cases same : b = a
    · subst same
      simp
    · have later := ih ((List.mem_cons.1 mem).resolve_left (Ne.symm same))
      have place : (b :: rest).idxOf a = rest.idxOf a + 1 := List.idxOf_cons_ne rest same
      have level : ((rest.length + 1 : Nat) : Int) - ((rest.idxOf a + 1 : Nat) : Int)
          = rest.length - rest.idxOf a := by omega
      rw [place, level]
      exact List.mem_cons_of_mem _ later

section Table

variable {placed : List String}

theorem entries_table (nodup : placed.Nodup) : (OrderedMap.ofList (rank placed)).entries
    = rank placed := by
  refine (OrderedMap.entries_foldl_insert (m := ∅) ?_).trans (List.nil_append _)
  have fresh : (∅ : Levels).keys = [] := rfl
  rwa [fresh, keys_rank]

theorem keys_table (nodup : placed.Nodup) : (OrderedMap.ofList (rank placed)).keys = placed := by
  rw [OrderedMap.keys, entries_table nodup, keys_rank]

theorem size_table (nodup : placed.Nodup) :
    (OrderedMap.ofList (rank placed)).size = placed.length := by
  have long : ((rank placed).map Prod.fst).length = (rank placed).length := List.length_map _
  rw [OrderedMap.size, entries_table nodup, ← long, keys_rank]

/-- The level of a name counts the names from its place on. -/
theorem get?_table (nodup : placed.Nodup) {a : String} (mem : a ∈ placed) :
    (OrderedMap.ofList (rank placed)).get? a
      = some ⟨(placed.length : Int) - placed.idxOf a, .none⟩ := by
  rw [OrderedMap.get?_eq_some_iff, entries_table nodup]
  exact mem_rank mem

end Table

/-- Levels that are listed from the number of names down to 1 are each the level of one name. -/
theorem bijOn_level {levels : Levels} (descending : levels.values.map Level.level
      = (List.range levels.size).reverse.map fun k : Nat => (k : Int) + 1) :
    Set.BijOn (fun name => (levels.getD name default).level) {name | name ∈ levels.keys}
      {level : Int | 1 ≤ level ∧ level ≤ levels.size} := by
  have listed : levels.keys.map (fun name => (levels.getD name default).level)
      = (List.range levels.size).reverse.map fun k : Nat => (k : Int) + 1 := by
    rw [← descending, OrderedMap.keys, OrderedMap.values, List.map_map, List.map_map]
    apply List.map_congr_left
    intro e he
    have found := OrderedMap.get?_eq_some_iff.2 he
    simp only [Function.comp_apply, OrderedMap.getD, found, Option.getD_some]
  have inside (level : Int) : level ∈ levels.keys.map
      (fun name => (levels.getD name default).level) ↔ 1 ≤ level ∧ level ≤ levels.size := by
    rw [listed]
    simp only [List.mem_map, List.mem_reverse, List.mem_range]
    constructor
    · rintro ⟨k, bound, rfl⟩
      omega
    · rintro ⟨least, most⟩
      exact ⟨(level - 1).toNat, by omega, by omega⟩
  refine ⟨?_, ?_, ?_⟩
  · intro name mem
    exact (inside _).1 (List.mem_map_of_mem mem)
  · have nodup : (levels.keys.map fun name => (levels.getD name default).level).Nodup := by
      rw [listed]
      refine List.Nodup.map ?_ (List.nodup_reverse.2 List.nodup_range)
      intro i j same
      dsimp only at same
      omega
    intro a ha b hb same
    exact List.inj_on_of_nodup_map nodup ha hb same
  · intro level bounds
    obtain ⟨name, mem, rfl⟩ := List.mem_map.1 ((inside level).2 bounds)
    exact ⟨name, mem, rfl⟩

theorem levels_eq_ok_iff {table : Levels} : levels orderings = .ok table
    ↔ Acyclic orderings ∧ table = OrderedMap.ofList (rank (placement orderings).placed) := by
  rw [← all_placed_iff, ← length_placed_iff]
  unfold levels
  dsimp only
  split
  · rename_i all
    simp [all, eq_comm]
  · rename_i some
    simp [some]

theorem merged_of_acyclic (acyclic : Acyclic orderings) :
    Merged orderings (OrderedMap.ofList (rank (placement orderings).placed)) := by
  have nodup := nodup_placed orderings
  have all := all_placed_iff.2 acyclic
  have size : (OrderedMap.ofList (rank (placement orderings).placed)).size
      = (placement orderings).placed.length := size_table nodup
  have descending : (OrderedMap.ofList (rank (placement orderings).placed)).values.map Level.level
      = (List.range (OrderedMap.ofList (rank (placement orderings).placed)).size).reverse.map
        fun k : Nat => (k : Int) + 1 := by
    rw [size, ← levels_rank, OrderedMap.values, entries_table nodup, List.map_map]
    rfl
  refine ⟨?_, ?_, bijOn_level descending, descending, ?_, ?_⟩
  · intro name
    rw [keys_table nodup, ← mem_names_iff]
    exact ⟨fun placed => placed_subset orderings placed, all name⟩
  · rw [size, length_placed_iff.2 all, size_names]
  · intro level mem
    rw [OrderedMap.values, entries_table nodup] at mem
    obtain ⟨e, he, rfl⟩ := List.mem_map.1 mem
    exact assoc_rank he
  · intro ordering mem i j a b before first second
    obtain ⟨k, rfl⟩ : ∃ k, j = i + k + 1 := ⟨j - i - 1, by omega⟩
    have path := transGen_of_lt mem first k second
    have placed : b ∈ (placement orderings).placed :=
      all b (mem_names_iff.2 ⟨ordering, mem, List.mem_of_getElem? second⟩)
    obtain ⟨before, later⟩ := idxOf_lt_of_transGen path placed
    refine ⟨_, _, get?_table nodup before, get?_table nodup placed, ?_⟩
    dsimp only
    omega

/-- Orderings are merged exactly if they do not contradict each other, and then into one order of
all their names that respects each of them. -/
theorem levels_merge (orderings : List (List String)) :
    ((∃ table, levels orderings = .ok table) ↔ Acyclic orderings)
      ∧ ∀ table, levels orderings = .ok table → Merged orderings table := by
  constructor
  · constructor
    · rintro ⟨table, merged⟩
      exact (levels_eq_ok_iff.1 merged).1
    · intro acyclic
      exact ⟨_, levels_eq_ok_iff.2 ⟨acyclic, rfl⟩⟩
  · intro table merged
    obtain ⟨acyclic, rfl⟩ := levels_eq_ok_iff.1 merged
    exact merged_of_acyclic acyclic

/-- Two orderings that share a name are merged into one order of their four names. -/
theorem levels_merge_operators : ∃ table,
    levels [["unary", "multiply", "add"], ["multiply", "compare"]] = .ok table
      ∧ Merged [["unary", "multiply", "add"], ["multiply", "compare"]] table :=
  ⟨_, rfl, (levels_merge _).2 _ rfl⟩

end Productions.Orderings
