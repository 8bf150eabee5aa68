import Mathlib.Data.List.Basic
import Mathlib.Data.List.Nodup
import Mathlib.Data.List.Perm.Subperm
import Productions.Precedence.Orderings
import Productions.Proofs.Ordered

/-! Names are placed one by one. At every moment the number kept for a name is that of the names
directly above it that have not been placed, and the names without any are those that have been
placed or wait in the queue. So a name is placed behind all names above it, and when no name waits
any more, whatever is left has something above it that is left, too. -/
namespace Productions.Orderings

variable {pairs : OrderedSet (String × String)} {names : OrderedSet String}

theorem mem_below_iff {a b : String} : b ∈ below pairs a ↔ (a, b) ∈ pairs := by
  simp [below]

theorem nodup_below (a : String) : (below pairs a).Nodup := by
  refine List.Nodup.map_on ?_ (pairs.nodup.filter _)
  intro p hp q hq same
  have first : p.1 = a := by simpa using (List.mem_filter.1 hp).2
  have second : q.1 = a := by simpa using (List.mem_filter.1 hq).2
  exact Prod.ext (first.trans second.symm) same

def missingAbove (pairs : OrderedSet (String × String)) (placed : List String) (b : String) : Nat :=
  pairs.toList.countP fun p => p.2 == b && !placed.contains p.1

theorem missingAbove_eq_zero_iff {placed : List String} {b : String} :
    missingAbove pairs placed b = 0 ↔ ∀ a, (a, b) ∈ pairs → a ∈ placed := by
  rw [missingAbove, List.countP_eq_zero]
  constructor
  · intro h a mem
    simpa using h (a, b) mem
  · rintro h ⟨a, c⟩ mem
    by_cases same : c = b
    · subst same
      simpa using h a mem
    · simp [same]

theorem missingAbove_append {placed : List String} {a : String} (new : a ∉ placed) (b : String) :
    missingAbove pairs placed b
      = missingAbove pairs (placed ++ [a]) b + if (a, b) ∈ pairs then 1 else 0 := by
  have once : pairs.toList.countP (fun p => p == (a, b)) = if (a, b) ∈ pairs then 1 else 0 := by
    by_cases mem : (a, b) ∈ pairs
    · rw [if_pos mem]
      exact List.count_eq_one_of_mem pairs.nodup mem
    · rw [if_neg mem]
      exact List.count_eq_zero_of_not_mem mem
  rw [← once, missingAbove, missingAbove]
  induction pairs.toList with
  | nil => rfl
  | cons p ps ih =>
    obtain ⟨x, y⟩ := p
    rw [List.countP_cons, List.countP_cons, List.countP_cons, ih]
    by_cases below : y = b
    · by_cases same : x = a
      · subst below same
        simp [new]
        omega
      · simp [below, same]
        omega
    · simp [below]

namespace Placement

theorem placed_foldl_release (bs : List String) (s : Placement) :
    (bs.foldl release s).placed = s.placed := by
  induction bs generalizing s with
  | nil => rfl
  | cons b bs ih => exact ih (s.release b)

theorem getD_release (s : Placement) (b c : String) :
    (s.release b).missing.getD c 0 = s.missing.getD c 0 - if c = b then 1 else 0 := by
  rw [release, OrderedMap.getD, OrderedMap.get?_insert]
  by_cases same : c = b
  · simp [same]
  · simp [same, OrderedMap.getD]

theorem getD_foldl_release {bs : List String} (nodup : bs.Nodup) (s : Placement) (c : String) :
    (bs.foldl release s).missing.getD c 0 = s.missing.getD c 0 - if c ∈ bs then 1 else 0 := by
  induction bs generalizing s with
  | nil => simp
  | cons b bs ih =>
    rw [List.nodup_cons] at nodup
    rw [List.foldl_cons, ih nodup.2, getD_release]
    by_cases same : c = b
    · subst same
      simp [nodup.1]
    · simp [same]

theorem keys_foldl_release {bs : List String} {s : Placement}
    (known : ∀ b ∈ bs, b ∈ s.missing.keys) :
    (bs.foldl release s).missing.keys = s.missing.keys := by
  induction bs generalizing s with
  | nil => rfl
  | cons b bs ih =>
    have kept : (s.release b).missing.keys = s.missing.keys := by
      rw [release, OrderedMap.keys_insert, if_pos (known b (by simp))]
    rw [List.foldl_cons, ih, kept]
    intro c hc
    rw [kept]
    exact known c (by simp [hc])

/-- Those names join the queue above which one name was missing at most. -/
theorem queue_foldl_release {bs : List String} (nodup : bs.Nodup) (s : Placement) :
    (bs.foldl release s).queue
      = s.queue ++ bs.filter fun b => s.missing.getD b 0 - 1 == 0 := by
  induction bs generalizing s with
  | nil => simp
  | cons b bs ih =>
    rw [List.nodup_cons] at nodup
    have others : (bs.filter fun c => (s.release b).missing.getD c 0 - 1 == 0)
        = bs.filter fun c => s.missing.getD c 0 - 1 == 0 := by
      apply List.filter_congr
      intro c hc
      have apart : c ≠ b := fun same => nodup.1 (same ▸ hc)
      rw [getD_release, if_neg apart, Nat.sub_zero]
    have joined : (s.release b).queue
        = s.queue ++ if s.missing.getD b 0 - 1 = 0 then [b] else [] := by
      by_cases last : s.missing.getD b 0 - 1 = 0
      · simp [release, last]
      · simp [release, last]
    rw [List.foldl_cons, ih nodup.2, others, joined, List.filter_cons]
    by_cases last : s.missing.getD b 0 - 1 = 0
    · simp [last]
    · simp [last]

section Next

variable {s : Placement}

theorem next_of_nil (none : s.queue = []) : next pairs s = s := by
  simp [next, none]

variable {a : String} {queue : List String}

theorem next_of_cons (first : s.queue = a :: queue) : next pairs s
    = (below pairs a).foldl release { s with queue, placed := s.placed ++ [a] } := by
  simp [next, first]

theorem placed_next (first : s.queue = a :: queue) : (next pairs s).placed = s.placed ++ [a] := by
  rw [next_of_cons first, placed_foldl_release]

theorem getD_next (first : s.queue = a :: queue) (b : String) :
    (next pairs s).missing.getD b 0 = s.missing.getD b 0 - if (a, b) ∈ pairs then 1 else 0 := by
  rw [next_of_cons first, getD_foldl_release (nodup_below a)]
  simp only [mem_below_iff]

theorem keys_next (known : ∀ a b, (a, b) ∈ pairs → b ∈ s.missing.keys) :
    (next pairs s).missing.keys = s.missing.keys := by
  cases first : s.queue with
  | nil => rw [next_of_nil first]
  | cons a queue =>
    rw [next_of_cons first]
    apply keys_foldl_release
    intro b hb
    exact known a b (mem_below_iff.1 hb)

/-- The names that have been placed or wait after a step are those from before and new ones. -/
theorem freed_next (first : s.queue = a :: queue) :
    (next pairs s).placed ++ (next pairs s).queue = (s.placed ++ s.queue)
      ++ (below pairs a).filter fun b => s.missing.getD b 0 - 1 == 0 := by
  have queued : (next pairs s).queue
      = queue ++ (below pairs a).filter fun b => s.missing.getD b 0 - 1 == 0 := by
    rw [next_of_cons first, queue_foldl_release (nodup_below a)]
  rw [placed_next first, queued, first]
  simp

end Next

/-- A placement of names in progress. -/
structure Progress (pairs : OrderedSet (String × String)) (names : OrderedSet String)
    (s : Placement) : Prop where
  keys : s.missing.keys = names.toList
  counted : ∀ b, s.missing.getD b 0 = missingAbove pairs s.placed b
  nodup : (s.placed ++ s.queue).Nodup
  free : ∀ b, b ∈ s.placed ++ s.queue ↔ b ∈ names ∧ missingAbove pairs s.placed b = 0
  sorted : ∀ front b back, s.placed = front ++ b :: back → ∀ a, (a, b) ∈ pairs → a ∈ front

theorem entries_degrees : (degrees pairs names).entries
    = names.toList.map fun b => (b, pairs.toList.countP fun p => p.2 == b) := by
  rw [degrees, OrderedMap.ofList]
  refine (OrderedMap.entries_foldl_insert (m := ∅) ?_).trans (List.nil_append _)
  have fresh : (∅ : OrderedMap String Nat).keys = [] := rfl
  simpa [fresh, Function.comp_def] using names.nodup

theorem keys_degrees : (degrees pairs names).keys = names.toList := by
  rw [OrderedMap.keys, entries_degrees]
  simp [Function.comp_def]

theorem getD_degrees (inside : ∀ a b, (a, b) ∈ pairs → a ∈ names ∧ b ∈ names) (b : String) :
    (degrees pairs names).getD b 0 = missingAbove pairs [] b := by
  have all : missingAbove pairs [] b = pairs.toList.countP fun p => p.2 == b := by
    simp [missingAbove]
  rw [all, OrderedMap.getD]
  by_cases named : b ∈ names
  · have found : (degrees pairs names).get? b
        = some (pairs.toList.countP fun p => p.2 == b) := by
      rw [OrderedMap.get?_eq_some_iff, entries_degrees]
      exact List.mem_map.2 ⟨b, named, rfl⟩
    rw [found]
    rfl
  · have absent : (degrees pairs names).get? b = none := by
      rw [OrderedMap.get?_eq_none_iff, keys_degrees]
      exact named
    rw [absent, eq_comm]
    apply List.countP_eq_zero.2
    rintro ⟨a, c⟩ mem
    simp only [beq_iff_eq]
    rintro rfl
    exact named (inside a c mem).2

theorem progress_start (inside : ∀ a b, (a, b) ∈ pairs → a ∈ names ∧ b ∈ names) :
    Progress pairs names (start pairs names) := by
  refine ⟨keys_degrees, getD_degrees inside, ?_, ?_, ?_⟩
  · exact names.nodup.filter _
  · intro b
    simp [start, getD_degrees inside]
  · intro front b back split
    cases front <;> cases split

variable {s : Placement}

namespace Progress

section Next

variable {a : String} {queue : List String}

theorem missingAbove_next (h : Progress pairs names s) (first : s.queue = a :: queue)
    (b : String) : missingAbove pairs s.placed b
      = missingAbove pairs (s.placed ++ [a]) b + if (a, b) ∈ pairs then 1 else 0 := by
  have nodup := h.nodup
  rw [first] at nodup
  apply missingAbove_append
  intro placed
  exact (List.nodup_append.1 nodup).2.2 a placed a (by simp) rfl

theorem counted_next (h : Progress pairs names s) (first : s.queue = a :: queue) (b : String) :
    (next pairs s).missing.getD b 0 = missingAbove pairs (next pairs s).placed b := by
  rw [getD_next first, placed_next first, h.counted, h.missingAbove_next first b,
    Nat.add_sub_cancel]

/-- Those names join the queue above which only the name that is placed was missing. -/
theorem mem_joining_iff (h : Progress pairs names s) (first : s.queue = a :: queue) {b : String} :
    b ∈ (below pairs a).filter (fun b => s.missing.getD b 0 - 1 == 0)
      ↔ (a, b) ∈ pairs ∧ missingAbove pairs (s.placed ++ [a]) b = 0 := by
  rw [List.mem_filter, mem_below_iff, h.counted, h.missingAbove_next first b]
  by_cases mem : (a, b) ∈ pairs
  · simp [mem]
  · simp [mem]

theorem nodup_next (h : Progress pairs names s) (first : s.queue = a :: queue) :
    ((next pairs s).placed ++ (next pairs s).queue).Nodup := by
  rw [freed_next first]
  refine List.nodup_append.2 ⟨h.nodup, (nodup_below a).filter _, ?_⟩
  rintro b old _ new rfl
  have joins := (h.mem_joining_iff first).1 new
  have free := ((h.free b).1 old).2
  rw [h.missingAbove_next first b, if_pos joins.1] at free
  omega

theorem free_next (inside : ∀ a b, (a, b) ∈ pairs → a ∈ names ∧ b ∈ names)
    (h : Progress pairs names s) (first : s.queue = a :: queue) (b : String) :
    b ∈ (next pairs s).placed ++ (next pairs s).queue
      ↔ b ∈ names ∧ missingAbove pairs (next pairs s).placed b = 0 := by
  rw [freed_next first, placed_next first, List.mem_append, h.mem_joining_iff first, h.free,
    h.missingAbove_next first b]
  by_cases mem : (a, b) ∈ pairs
  · simp [mem, (inside a b mem).2]
  · simp [mem]

theorem sorted_next (h : Progress pairs names s) (first : s.queue = a :: queue)
    (front : List String) (b : String) (back : List String)
    (split : (next pairs s).placed = front ++ b :: back) (c : String) (above : (c, b) ∈ pairs) :
    c ∈ front := by
  rw [placed_next first] at split
  rcases List.eq_nil_or_concat back with rfl | ⟨back, last, rfl⟩
  · obtain ⟨rfl, rfl⟩ : s.placed = front ∧ a = b := by simpa using split
    have free := ((h.free a).1 (by simp [first])).2
    exact missingAbove_eq_zero_iff.1 free c above
  · have shorter : s.placed = front ++ b :: back := by
      rw [List.concat_eq_append, ← List.cons_append, ← List.append_assoc] at split
      exact (List.append_inj' split rfl).1
    exact h.sorted front b back shorter c above

end Next

theorem next (inside : ∀ a b, (a, b) ∈ pairs → a ∈ names ∧ b ∈ names)
    (h : Progress pairs names s) : Progress pairs names (next pairs s) := by
  cases first : s.queue with
  | nil =>
    rw [next_of_nil first]
    exact h
  | cons a queue =>
    refine ⟨?_, h.counted_next first, h.nodup_next first, h.free_next inside first,
      h.sorted_next first⟩
    rw [keys_next, h.keys]
    intro b c mem
    rw [h.keys]
    exact (inside b c mem).2

end Progress

theorem Progress.run (inside : ∀ a b, (a, b) ∈ pairs → a ∈ names ∧ b ∈ names) (steps : Nat)
    (h : Progress pairs names s) : Progress pairs names (run pairs steps s) := by
  induction steps generalizing s with
  | zero => exact h
  | succ steps ih => exact ih (h.next inside)

theorem run_of_nil (none : s.queue = []) (steps : Nat) : run pairs steps s = s := by
  induction steps with
  | zero => rfl
  | succ steps ih => rw [run, next_of_nil none, ih]

/-- A run places a name at every step until no name waits any more. -/
theorem run_ends (pairs : OrderedSet (String × String)) (steps : Nat) (s : Placement) :
    (run pairs steps s).queue = []
      ∨ (run pairs steps s).placed.length = s.placed.length + steps := by
  induction steps generalizing s with
  | zero => exact .inr rfl
  | succ steps ih =>
    cases first : s.queue with
    | nil =>
      left
      rw [run_of_nil first]
      exact first
    | cons a queue =>
      rw [run]
      rcases ih (next pairs s) with done | long
      · exact .inl done
      · right
        rw [long, placed_next first, List.length_append, List.length_singleton]
        omega

theorem Progress.length_le (h : Progress pairs names s) :
    s.placed.length + s.queue.length ≤ names.size := by
  have inside : s.placed ++ s.queue ⊆ names.toList := fun b hb => ((h.free b).1 hb).1
  rw [← List.length_append]
  exact (List.subperm_of_subset h.nodup inside).length_le

/-- As many steps as there are names empty the queue: by then either no name waits, or all names
have been placed. -/
theorem queue_run_size (inside : ∀ a b, (a, b) ∈ pairs → a ∈ names ∧ b ∈ names)
    (h : Progress pairs names s) : (run pairs names.size s).queue = [] := by
  have bound := (h.run inside names.size).length_le
  rcases run_ends pairs names.size s with done | long
  · exact done
  · apply List.eq_nil_of_length_eq_zero
    omega

/-- What is left when no name waits has something above it that is left. -/
theorem Progress.exists_above (h : Progress pairs names s) (done : s.queue = []) {b : String}
    (named : b ∈ names) (left : b ∉ s.placed) : ∃ a, a ∉ s.placed ∧ (a, b) ∈ pairs := by
  by_contra none
  have ready : missingAbove pairs s.placed b = 0 := by
    rw [missingAbove_eq_zero_iff]
    intro a above
    by_contra missing
    exact none ⟨a, missing, above⟩
  have free := (h.free b).2 ⟨named, ready⟩
  rw [done, List.append_nil] at free
  exact left free

/-- A name is placed behind those above it. -/
theorem Progress.idxOf_lt (h : Progress pairs names s) {a b : String} (placed : b ∈ s.placed)
    (above : (a, b) ∈ pairs) : s.placed.idxOf a < s.placed.idxOf b := by
  obtain ⟨front, back, split⟩ := List.append_of_mem placed
  have before : a ∈ front := h.sorted front b back split a above
  have nodup := (List.nodup_append.1 h.nodup).1
  rw [split] at nodup ⊢
  have apart : b ∉ front := by
    intro hb
    exact (List.nodup_append.1 nodup).2.2 b hb b (by simp) rfl
  rw [List.idxOf_append_of_mem before, List.idxOf_append_of_notMem apart]
  have bound := List.idxOf_lt_length_iff.2 before
  omega

end Placement

end Productions.Orderings
