import Productions.Proofs.Precedence.Orderings

/-! Orderings that contradict each other. What is reported then are the names above which some are
missing for good: those that go round, and also those that only come below such a name. The report
is confined to the names that go round exactly if nothing else stands directly below them. -/
namespace Productions.Orderings

open Relation Placement

variable {orderings : List (List String)}

def OnCycle (orderings : List (List String)) (a : String) : Prop :=
  TransGen (DirectlyAbove orderings) a a

/-- The name goes round or comes below one that does. -/
def UnderCycle (orderings : List (List String)) (b : String) : Prop :=
  ∃ a, OnCycle orderings a ∧ ReflTransGen (DirectlyAbove orderings) a b

structure Lists (orderings : List (List String)) (p : String → Prop) (listed : List String) :
    Prop where
  exact : ∀ a, a ∈ listed ↔ p a
  inOrder : listed.Pairwise fun a b => orderings.flatten.idxOf a < orderings.flatten.idxOf b

theorem Lists.congr {p q : String → Prop} {listed : List String} (h : Lists orderings p listed)
    (same : ∀ a, p a ↔ q a) : Lists orderings q listed :=
  ⟨fun a => (h.exact a).trans (same a), h.inOrder⟩

theorem UnderCycle.tail {a b : String} (h : UnderCycle orderings a)
    (step : DirectlyAbove orderings a b) : UnderCycle orderings b := by
  obtain ⟨c, cycle, path⟩ := h
  exact ⟨c, cycle, path.tail step⟩

/-- A name under a cycle has another one of them directly above it; on the cycle this is the one
before it. -/
theorem UnderCycle.exists_above {b : String} (h : UnderCycle orderings b) :
    ∃ a, UnderCycle orderings a ∧ DirectlyAbove orderings a b := by
  obtain ⟨c, cycle, path⟩ := h
  obtain rfl | ⟨a, before, step⟩ := path.cases_tail
  · obtain ⟨a, before, step⟩ := TransGen.tail'_iff.1 cycle
    exact ⟨a, ⟨b, cycle, before⟩, step⟩
  · exact ⟨a, ⟨c, cycle, before⟩, step⟩

theorem UnderCycle.not_placed {b : String} (h : UnderCycle orderings b) :
    b ∉ (placement orderings).placed := by
  intro placed
  obtain ⟨a, cycle, path⟩ := h
  have first : a ∈ (placement orderings).placed := by
    rcases reflTransGen_iff_eq_or_transGen.1 path with rfl | path
    · exact placed
    · exact (idxOf_lt_of_transGen path placed).1
  exact (idxOf_lt_of_transGen cycle first).2.false

/-- Of the names from which a way leads to a name that is left, some go round. -/
theorem underCycle_of_mem_unplaced {b : String} (left : b ∈ unplaced orderings) :
    UnderCycle orderings b := by
  classical
  let leading := (unplaced orderings).filter fun a => ReflTransGen (DirectlyAbove orderings) a b
  have mem_leading (a : String) : a ∈ leading
      ↔ a ∈ unplaced orderings ∧ ReflTransGen (DirectlyAbove orderings) a b := by
    simp [leading]
  have here : b ∈ leading := (mem_leading b).2 ⟨left, .refl⟩
  obtain ⟨a, mem, cycle⟩ := exists_cycle (R := DirectlyAbove orderings) (List.ne_nil_of_mem here)
    (by
      intro c mem
      obtain ⟨left, path⟩ := (mem_leading c).1 mem
      obtain ⟨a, left, step⟩ := exists_directlyAbove_unplaced left
      exact ⟨a, (mem_leading a).2 ⟨left, path.head step⟩, step⟩)
  exact ⟨a, cycle, ((mem_leading a).1 mem).2⟩

def reported (orderings : List (List String)) : List String :=
  ((placement orderings).missing.entries.filter fun e => 0 < e.2).map Prod.fst

theorem mem_reported_iff {b : String} : b ∈ reported orderings
    ↔ ∃ a, a ∉ (placement orderings).placed ∧ DirectlyAbove orderings a b := by
  have counted : b ∈ reported orderings
      ↔ missingAbove (above orderings) (placement orderings).placed b ≠ 0 := by
    rw [← (progress_placement orderings).counted, reported, OrderedMap.getD, List.mem_map]
    constructor
    · rintro ⟨⟨b, count⟩, mem, rfl⟩
      obtain ⟨entry, some⟩ := List.mem_filter.1 mem
      rw [OrderedMap.get?_eq_some_iff.2 entry]
      exact Nat.pos_iff_ne_zero.1 (of_decide_eq_true some)
    · intro some
      cases found : (placement orderings).missing.get? b with
      | none => simp [found] at some
      | some count =>
        rw [found] at some
        exact ⟨(b, count), List.mem_filter.2 ⟨OrderedMap.get?_eq_some_iff.1 found,
          decide_eq_true (Nat.pos_iff_ne_zero.2 some)⟩, rfl⟩
  rw [counted, ne_eq, missingAbove_eq_zero_iff]
  simp only [mem_above_iff, not_forall, exists_prop, and_comm]

theorem lists_reported (orderings : List (List String)) :
    Lists orderings (UnderCycle orderings) (reported orderings) where
  exact b := by
    rw [mem_reported_iff]
    constructor
    · rintro ⟨a, missing, step⟩
      have named := (inside a b (mem_above_iff.2 step)).1
      exact (underCycle_of_mem_unplaced (mem_unplaced_iff.2 ⟨named, missing⟩)).tail step
    · intro under
      obtain ⟨a, above, step⟩ := under.exists_above
      exact ⟨a, above.not_placed, step⟩
  inOrder := by
    have part : (reported orderings).Sublist (names orderings).toList := by
      rw [← (progress_placement orderings).keys]
      exact List.filter_sublist.map _
    exact (OrderedSet.pairwise_idxOf orderings.flatten).sublist part

theorem eq_reported_of_error {listed : List String} (failed : levels orderings = .error listed) :
    listed = reported orderings := by
  unfold levels at failed
  dsimp only at failed
  split at failed
  · cases failed
  · exact (Except.error.inj failed).symm

/-- Orderings that cannot be merged are reported with all names on a cycle or below one, in the
order in which they are first written. Those on a cycle alone are reported exactly if whatever
stands directly below one of them is on a cycle, too. -/
theorem lists_onCycle_iff (orderings : List (List String)) (listed : List String)
    (failed : levels orderings = .error listed) :
    Lists orderings (UnderCycle orderings) listed
      ∧ (Lists orderings (OnCycle orderings) listed ↔ ∀ a b, OnCycle orderings a →
        DirectlyAbove orderings a b → OnCycle orderings b) := by
  obtain rfl := eq_reported_of_error failed
  have under := lists_reported orderings
  refine ⟨under, ?_, ?_⟩
  · intro confined a b cycle step
    exact (confined.exact b).1 ((under.exact b).2 ⟨a, cycle, .single step⟩)
  · intro closed
    refine under.congr fun b => ⟨?_, fun cycle => ⟨b, cycle, .refl⟩⟩
    rintro ⟨a, cycle, path⟩
    induction path with
    | refl => exact cycle
    | tail _ step ih => exact closed _ _ ih step

/-- Two names above each other, and one above both. -/
def sums : List (List String) := [["add", "subtract"], ["subtract", "add"], ["multiply", "add"]]

theorem lists_onCycle_sums : levels sums = .error ["add", "subtract"]
    ∧ Lists sums (OnCycle sums) ["add", "subtract"] := by
  have failed : levels sums = .error ["add", "subtract"] := rfl
  refine ⟨failed, (lists_onCycle_iff _ _ failed).2.2 ?_⟩
  intro a b _ step
  have down : DirectlyAbove sums "add" "subtract" := ⟨_, .head _, 0, rfl, rfl⟩
  have up : DirectlyAbove sums "subtract" "add" := ⟨_, .tail _ (.head _), 0, rfl, rfl⟩
  have pairs : (a, b) ∈ [("add", "subtract"), ("subtract", "add"), ("multiply", "add")] :=
    mem_above_iff.2 step
  have ends : b = "subtract" ∨ b = "add" := by
    simp only [List.mem_cons, Prod.mk.injEq, List.not_mem_nil, or_false] at pairs
    tauto
  rcases ends with rfl | rfl
  · exact .tail (.single up) down
  · exact .tail (.single down) up

/-- A name below a cycle is reported although it does not go round. -/
theorem exists_reported_off_cycle : ∃ orderings listed, levels orderings = .error listed
    ∧ ¬ Lists orderings (OnCycle orderings) listed := by
  refine ⟨[["a", "b"], ["b", "a", "c"]], ["a", "b", "c"], rfl, ?_⟩
  intro confined
  obtain ⟨b, step, -⟩ := TransGen.head'_iff.1 ((confined.exact "c").1 (by decide))
  have pairs : ("c", b) ∈ [("a", "b"), ("b", "a"), ("a", "c")] := mem_above_iff.2 step
  simp at pairs

end Productions.Orderings
