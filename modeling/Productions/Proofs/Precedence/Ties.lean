import Productions.Proofs.Precedence.Orderings

/-! Names that no ordering puts above each other. They wait in a queue, so whatever is ready at one
moment comes before all that becomes ready later, and what becomes ready at one moment keeps the
order in which the pairs with the name just placed are first written. This is the order in which the
names themselves are first written exactly if no name that is ready is overtaken by one that is
written later. -/
namespace Productions.Orderings

open Placement

variable {orderings : List (List String)}

structure Ready (orderings : List (List String)) (front : List String) (b : String) : Prop where
  named : b ∈ orderings.flatten
  new : b ∉ front
  free : ∀ a, DirectlyAbove orderings a b → a ∈ front

def Released (orderings : List (List String)) (front : List String) (a b : String) : Prop :=
  DirectlyAbove orderings a b ∧ Ready orderings (front ++ [a]) b

structure Sorted (orderings : List (List String)) (order : List String) : Prop where
  nodup : order.Nodup
  names : ∀ a, a ∈ order ↔ a ∈ orderings.flatten
  ready : ∀ front a, front ++ [a] <+: order → Ready orderings front a

/-- At each place stands the name that is first written of those that can stand there. -/
structure FirstWritten (orderings : List (List String)) (order : List String) : Prop
    extends Sorted orderings order where
  first : ∀ front a b, front ++ [a] <+: order → Ready orderings front b →
    orderings.flatten.idxOf a ≤ orderings.flatten.idxOf b

/-- A line of names of which the first have been placed. What is ready comes before what is not.
Names with nothing above them keep the order in which they are first written, names made ready by
the same one that of their pairs with it. -/
structure Lined (orderings : List (List String)) (placed line : List String) : Prop where
  waiting : ∀ front, front <+: placed →
    ∃ queue, front ++ queue <+: line ∧ ∀ b, b ∈ queue ↔ Ready orderings front b
  leading : line.Pairwise fun a b => Ready orderings [] a → Ready orderings [] b →
    orderings.flatten.idxOf a < orderings.flatten.idxOf b
  released : ∀ front a, front ++ [a] <+: placed → line.Pairwise fun b c =>
    Released orderings front a b → Released orderings front a c →
      (orderings.flatMap neighbours).idxOf (a, b) < (orderings.flatMap neighbours).idxOf (a, c)

structure Queued (orderings : List (List String)) (order : List String) : Prop
    extends Sorted orderings order, Lined orderings order order

theorem Ready.mono {front longer : List String} {b : String} (h : Ready orderings front b)
    (part : front ⊆ longer) (new : b ∉ longer) : Ready orderings longer b :=
  ⟨h.named, new, fun a above => part (h.free a above)⟩

/-- The names directly below one, in the order in which the pairs are first written. -/
theorem pairwise_below (a : String) : (below (above orderings) a).Pairwise fun b c =>
    (orderings.flatMap neighbours).idxOf (a, b) < (orderings.flatMap neighbours).idxOf (a, c) := by
  have pairs := (OrderedSet.pairwise_idxOf (orderings.flatMap neighbours)).sublist
    (List.filter_sublist (p := fun p => p.1 == a))
  refine List.pairwise_map.2 (pairs.imp_of_mem ?_)
  rintro ⟨x, b⟩ ⟨y, c⟩ hb hc before
  obtain rfl : x = a := by simpa using (List.mem_filter.1 hb).2
  obtain rfl : y = x := by simpa using (List.mem_filter.1 hc).2
  convert before

namespace Placement

variable {s : Placement}

theorem Progress.mem_queue_iff (h : Progress (above orderings) (names orderings) s) {b : String} :
    b ∈ s.queue ↔ Ready orderings s.placed b := by
  constructor
  · intro waits
    obtain ⟨named, none⟩ := (h.free b).1 (List.mem_append_right _ waits)
    refine ⟨OrderedSet.mem_ofList.1 named, ?_, ?_⟩
    · exact fun placed => List.disjoint_of_nodup_append h.nodup placed waits
    · intro a above
      exact missingAbove_eq_zero_iff.1 none a (mem_above_iff.2 above)
  · intro ready
    have none : missingAbove (above orderings) s.placed b = 0 :=
      missingAbove_eq_zero_iff.2 fun a above => ready.free a (mem_above_iff.1 above)
    have line := (h.free b).2 ⟨OrderedSet.mem_ofList.2 ready.named, none⟩
    exact (List.mem_append.1 line).resolve_left ready.new

theorem lined_start (orderings : List (List String)) :
    Lined orderings [] (start (above orderings) (names orderings)).queue where
  waiting front part := by
    obtain rfl := List.prefix_nil.1 part
    exact ⟨_, List.prefix_refl _, fun _ => (progress_start inside).mem_queue_iff⟩
  leading := by
    have written := (OrderedSet.pairwise_idxOf orderings.flatten).sublist
      (List.filter_sublist (p := fun b => (degrees (above orderings) (names orderings)).getD b 0 == 0))
    exact written.imp fun before _ _ => before
  released front a part := by
    have none := List.prefix_nil.1 part
    simp at none

section Next

variable {a : String} {queue : List String}

theorem Progress.head_not_placed (progress : Progress (above orderings) (names orderings) s)
    (first : s.queue = a :: queue) : a ∉ s.placed :=
  (progress.mem_queue_iff.1 (first ▸ List.mem_cons_self)).new

/-- The name that is placed next stands above nothing that has been placed or waits. -/
theorem Progress.not_above_of_mem (progress : Progress (above orderings) (names orderings) s)
    (first : s.queue = a :: queue) {b : String} (mem : b ∈ s.placed ++ s.queue) :
    ¬ DirectlyAbove orderings a b := by
  intro above
  have none := missingAbove_eq_zero_iff.1 ((progress.free b).1 mem).2
  exact progress.head_not_placed first (none a (mem_above_iff.2 above))

theorem above_of_mem_joining {b : String} (mem : b ∈ (below (above orderings) a).filter
    fun b => s.missing.getD b 0 - 1 == 0) : DirectlyAbove orderings a b :=
  mem_above_iff.1 (mem_below_iff.1 (List.mem_filter.1 mem).1)

/-- An order of some names is kept by a step if no such name joins. -/
theorem pairwise_next {p : String → Prop} {r : String → String → Prop}
    (first : s.queue = a :: queue)
    (h : (s.placed ++ s.queue).Pairwise fun b c => p b → p c → r b c)
    (none : ∀ b, DirectlyAbove orderings a b → ¬ p b) :
    ((next (above orderings) s).placed ++ (next (above orderings) s).queue).Pairwise
      fun b c => p b → p c → r b c := by
  rw [freed_next first]
  refine List.pairwise_append.2 ⟨h, ?_, ?_⟩
  · refine List.pairwise_of_forall_mem_list fun b mem c _ wanted => ?_
    exact absurd wanted (none b (above_of_mem_joining mem))
  · intro b _ c mem _ wanted
    exact absurd wanted (none c (above_of_mem_joining mem))

theorem waiting_next (h : Lined orderings s.placed (s.placed ++ s.queue))
    (progress : Progress (above orderings) (names orderings) s) (first : s.queue = a :: queue)
    (front : List String) (part : front <+: (next (above orderings) s).placed) :
    ∃ queue, front ++ queue
        <+: (next (above orderings) s).placed ++ (next (above orderings) s).queue
      ∧ ∀ b, b ∈ queue ↔ Ready orderings front b := by
  rw [placed_next first] at part
  rcases List.prefix_concat_iff.1 part with rfl | part
  · refine ⟨(next (above orderings) s).queue, ?_, ?_⟩
    · rw [placed_next first]
    · intro b
      rw [(progress.next inside).mem_queue_iff, placed_next first]
  · obtain ⟨queue, shorter, waiting⟩ := h.waiting front part
    rw [freed_next first]
    exact ⟨queue, shorter.trans (List.prefix_append _ _), waiting⟩

theorem released_next (h : Lined orderings s.placed (s.placed ++ s.queue))
    (progress : Progress (above orderings) (names orderings) s) (first : s.queue = a :: queue)
    (front : List String) (d : String)
    (part : front ++ [d] <+: (next (above orderings) s).placed) :
    ((next (above orderings) s).placed ++ (next (above orderings) s).queue).Pairwise fun b c =>
      Released orderings front d b → Released orderings front d c →
        (orderings.flatMap neighbours).idxOf (d, b)
          < (orderings.flatMap neighbours).idxOf (d, c) := by
  rw [placed_next first] at part
  rcases List.prefix_concat_iff.1 part with last | part
  · obtain ⟨rfl, rfl⟩ : front = s.placed ∧ d = a := by simpa using last
    rw [freed_next first]
    refine List.pairwise_append.2 ⟨?_, ?_, ?_⟩
    · refine List.pairwise_of_forall_mem_list fun b mem c _ released => ?_
      exact absurd released.1 (progress.not_above_of_mem first mem)
    · exact ((pairwise_below d).sublist List.filter_sublist).imp fun before _ _ => before
    · intro b mem c _ released
      exact absurd released.1 (progress.not_above_of_mem first mem)
  · refine pairwise_next first (h.released front d part) fun b above released => ?_
    exact progress.head_not_placed first (part.subset (released.2.free a above))

end Next

/-- A step adds to the end of the line what the placed name makes ready. -/
theorem lined_next (h : Lined orderings s.placed (s.placed ++ s.queue))
    (progress : Progress (above orderings) (names orderings) s) :
    Lined orderings (next (above orderings) s).placed
      ((next (above orderings) s).placed ++ (next (above orderings) s).queue) := by
  cases first : s.queue with
  | nil =>
    rw [next_of_nil first]
    exact h
  | cons a queue =>
    have leading := pairwise_next first h.leading fun b above ready =>
      List.not_mem_nil (ready.free a above)
    exact ⟨waiting_next h progress first, leading, released_next h progress first⟩

theorem lined_run (h : Lined orderings s.placed (s.placed ++ s.queue))
    (progress : Progress (above orderings) (names orderings) s) (steps : Nat) :
    Lined orderings (run (above orderings) steps s).placed
      ((run (above orderings) steps s).placed ++ (run (above orderings) steps s).queue) := by
  induction steps generalizing s with
  | zero => exact h
  | succ steps ih => exact ih (lined_next h progress) (progress.next inside)

end Placement

theorem sorted_placement (all : ∀ b ∈ names orderings, b ∈ (placement orderings).placed) :
    Sorted orderings (placement orderings).placed where
  nodup := nodup_placed orderings
  names a := by
    have named : a ∈ names orderings ↔ a ∈ orderings.flatten := OrderedSet.mem_ofList
    rw [← named]
    exact ⟨fun placed => placed_subset orderings placed, all a⟩
  ready front a part := by
    have nodup := (nodup_placed orderings).sublist part.sublist
    obtain ⟨back, split⟩ := part
    rw [List.append_assoc, List.singleton_append] at split
    have placed : a ∈ (placement orderings).placed := by simp [← split]
    refine ⟨OrderedSet.mem_ofList.1 (placed_subset orderings placed), ?_, ?_⟩
    · exact fun mem => List.disjoint_of_nodup_append nodup mem (List.mem_singleton_self a)
    · intro b above
      exact (progress_placement orderings).sorted front a back split.symm b (mem_above_iff.2 above)

theorem queued_placement (all : ∀ b ∈ names orderings, b ∈ (placement orderings).placed) :
    Queued orderings (placement orderings).placed := by
  have lined := lined_run (lined_start orderings) (progress_start inside) (names orderings).size
  have done : (run (above orderings) (names orderings).size
      (start (above orderings) (names orderings))).queue = [] := queue_placement orderings
  rw [done, List.append_nil] at lined
  exact ⟨sorted_placement all, lined⟩

/-- Where of two neighbours that could change places the first is written first, a name that is
followed by others waiting with it is written before them. -/
theorem idxOf_lt_of_waiting {order : List String} (sorted : Sorted orderings order)
    (fair : ∀ front a b, front ++ [a, b] <+: order → Ready orderings front b →
      orderings.flatten.idxOf a < orderings.flatten.idxOf b) (queue : List String) :
    ∀ front a, front ++ a :: queue <+: order → (∀ b ∈ queue, Ready orderings front b) →
      ∀ b ∈ queue, orderings.flatten.idxOf a < orderings.flatten.idxOf b := by
  induction queue with
  | nil => simp
  | cons c queue ih =>
    intro front a part ready b mem
    have pair : front ++ [a, c] <+: order := .trans ⟨queue, by simp⟩ part
    have before := fair front a c pair (ready c List.mem_cons_self)
    rcases List.mem_cons.1 mem with rfl | later
    · exact before
    · have shifted : (front ++ [a]) ++ c :: queue <+: order := by simpa using part
      refine before.trans (ih _ c shifted ?_ b later)
      intro d waits
      have waits := List.mem_cons_of_mem c waits
      refine (ready d waits).mono (List.subset_append_left _ _) ?_
      intro placed
      exact List.disjoint_of_nodup_append (sorted.nodup.sublist shifted.sublist) placed waits

theorem Queued.firstWritten {order : List String} (h : Queued orderings order)
    (fair : ∀ front a b, front ++ [a, b] <+: order → Ready orderings front b →
      orderings.flatten.idxOf a < orderings.flatten.idxOf b) : FirstWritten orderings order := by
  refine ⟨h.toSorted, ?_⟩
  intro front a b part ready
  obtain ⟨queue, line, waiting⟩ := h.waiting front ((List.prefix_append _ _).trans part)
  have waits := (waiting b).2 ready
  cases queue with
  | nil => cases waits
  | cons c queue =>
    have same : front ++ [a] <+: front ++ c :: queue :=
      List.prefix_of_prefix_length_le part line (by simp)
    obtain ⟨rfl, -⟩ := List.cons_prefix_cons.1 ((List.prefix_append_right_inj front).1 same)
    rcases List.mem_cons.1 waits with rfl | later
    · exact le_rfl
    · refine (idxOf_lt_of_waiting h.toSorted fair queue front a line ?_ b later).le
      exact fun c mem => (waiting c).1 (List.mem_cons_of_mem a mem)

/-- The names of merged orderings have their levels in the order of a queue. Each level, from the
highest down, goes to the first written of all names that can have it exactly if of two names next
to each other, where both could have had the higher level, the one with it is written first. -/
theorem ranks_first_written_iff (orderings : List (List String)) (table : Levels)
    (merged : levels orderings = .ok table) :
    table.entries = rank table.keys ∧ Queued orderings table.keys
      ∧ (FirstWritten orderings table.keys ↔ ∀ front a b, front ++ [a, b] <+: table.keys →
        Ready orderings front b → orderings.flatten.idxOf a < orderings.flatten.idxOf b) := by
  obtain ⟨acyclic, rfl⟩ := levels_eq_ok_iff.1 merged
  have nodup := nodup_placed orderings
  have queued := queued_placement (all_placed_iff.2 acyclic)
  rw [keys_table nodup, entries_table nodup]
  refine ⟨rfl, queued, ?_, queued.firstWritten⟩
  intro written front a b part ready
  have before : front ++ [a] <+: (placement orderings).placed := .trans ⟨[b], by simp⟩ part
  refine lt_of_le_of_ne (written.first front a b before ready) ?_
  intro same
  have named := (queued.ready front a before).named
  obtain rfl := (List.idxOf_inj named).1 same
  have twice := nodup.sublist part.sublist
  simp [List.nodup_append] at twice

/-- Two orderings that share a name. What comes below it is ready at once. -/
theorem ranks_first_written_operators : ∃ table,
    levels [["unary", "multiply", "add"], ["multiply", "compare"]] = .ok table
      ∧ FirstWritten [["unary", "multiply", "add"], ["multiply", "compare"]] table.keys := by
  refine ⟨_, rfl, (ranks_first_written_iff _ _ rfl).2.2.2 ?_⟩
  intro front a b part _
  have written : ["unary", "multiply", "add", "compare"].Pairwise fun a b =>
      ["unary", "multiply", "add", "multiply", "compare"].idxOf a
        < ["unary", "multiply", "add", "multiply", "compare"].idxOf b := by decide
  have pair := written.sublist ((List.sublist_append_right front [a, b]).trans part.sublist)
  exact (List.pairwise_cons.1 pair).1 b (List.mem_singleton_self b)

/-- Of two names made ready by the same one, the one that is written later can get the higher
level. -/
theorem exists_overtaken : ∃ orderings table, levels orderings = .ok table
    ∧ ¬ FirstWritten orderings table.keys := by
  refine ⟨[["add", "compare"], ["multiply", "compare"], ["unary", "multiply"], ["unary", "add"]],
    _, rfl, ?_⟩
  intro written
  have ready : Ready [["add", "compare"], ["multiply", "compare"], ["unary", "multiply"],
      ["unary", "add"]] ["unary"] "add" := by
    refine ⟨by decide, by decide, ?_⟩
    intro a above
    have pairs : (a, "add") ∈ [("add", "compare"), ("multiply", "compare"), ("unary", "multiply"),
      ("unary", "add")] := mem_above_iff.2 above
    simpa using pairs
  have late := written.first ["unary"] "multiply" "add" ⟨["add", "compare"], rfl⟩ ready
  revert late
  decide

end Productions.Orderings
