import Mathlib.Data.List.Pairwise
import Productions.Proofs.Graph.Components

/-! What the components are. No node lies in two of them, and each component stands after every
other one it reaches. So together they are all nodes, in the classes of those that reach each other,
and a component with a cycle is recursive. -/
namespace Productions.Graph

open Relation

variable {α : Type} [DecidableEq α] {g : Graph α} {a b : α}

/-- What is closed under edges and has no node in common with components is not left to them. The
induction is on the components, which are closed together with what stands before them. -/
theorem Stacked.pairwise {later : α → Prop} {found : List (List α)}
    (stacked : Stacked g later found) (closed : ∀ a, later a → ∀ b, g.Edge a b → later b)
    (apart : found.Pairwise List.Disjoint)
    (outside : ∀ c ∈ found, ∀ a ∈ c, ¬ later a) :
    found.Pairwise fun earlier later => ∀ a ∈ earlier, ∀ b ∈ later, ¬ ReflTransGen g.Edge a b := by
  induction stacked with
  | nil => exact .nil
  | @cons later c found own below ih =>
    obtain ⟨first, rest⟩ := List.pairwise_cons.1 apart
    have closed' : ∀ a, a ∈ c ∨ later a → ∀ b, g.Edge a b → b ∈ c ∨ later b := by
      rintro a (ha | ha) b edge
      · exact own a ha b edge
      · exact .inr (closed a ha b edge)
    have outside' : ∀ d ∈ found, ∀ a ∈ d, ¬ (a ∈ c ∨ later a) := by
      rintro d hd a ha (inside | old)
      · exact first d hd inside ha
      · exact outside d (List.mem_cons_of_mem _ hd) a ha old
    refine List.pairwise_cons.2 ⟨fun d hd a ha b hb path => ?_, ih closed' rest outside'⟩
    have stays : b ∈ c ∨ later b := by
      clear hb
      induction path with
      | refl => exact .inl ha
      | tail _ edge ih => exact closed' _ ih _ edge
    exact outside' d hd b hb stays

/-- Each component leads to itself and to those before it only. -/
theorem stacked_components (g : Graph α) : Stacked g (fun _ => False) g.components :=
  (emitted_components g).1.stacked

theorem pairwise_components (g : Graph α) : g.components.Pairwise List.Disjoint :=
  (List.nodup_flatten.1 (emitted_components g).1.nodup).2

/-- No component leads to one that stands after it. -/
theorem ordered_components (g : Graph α) : g.components.Pairwise fun earlier later =>
    ∀ a ∈ earlier, ∀ b ∈ later, ¬ ReflTransGen g.Edge a b :=
  (stacked_components g).pairwise (by simp) (pairwise_components g) (by simp)

variable {c : List α}

theorem nodup_component (hc : c ∈ g.components) : c.Nodup :=
  (List.nodup_flatten.1 (emitted_components g).1.nodup).1 c hc

theorem ne_nil_of_mem_components (hc : c ∈ g.components) : c ≠ [] :=
  (emitted_components g).1.nonempty c hc

/-- Every node lies in one component, and there once. -/
theorem flatten_components_perm (g : Graph α) : g.components.flatten.Perm g.keys :=
  (List.perm_ext_iff_of_nodup (emitted_components g).1.nodup g.nodup_keys).2
    (emitted_components g).2

/-- The nodes of a component are those that reach one of them and are reached from it. -/
theorem mem_component_iff (hc : c ∈ g.components) (ha : a ∈ c) :
    a ∈ g.keys ∧ (b ∈ c ↔ b ∈ g.keys ∧ g.Mutual a b) := by
  obtain ⟨emitted, all⟩ := emitted_components g
  have known {x : α} (hx : x ∈ c) : x ∈ g.keys := (all x).1 (List.mem_flatten.2 ⟨c, hc, hx⟩)
  refine ⟨known ha, fun hb => ⟨known hb, emitted.within c hc a ha b hb⟩, ?_⟩
  rintro ⟨hb, both⟩
  obtain ⟨d, hd, mem⟩ := List.mem_flatten.1 ((all b).2 hb)
  have apart : g.components.Pairwise fun c d => ∀ x ∈ c, ∀ y ∈ d, ¬ g.Mutual x y :=
    (ordered_components g).imp fun away x hx y hy both => away x hx y hy both.1
  have : Std.Symm fun c d : List α => ∀ x ∈ c, ∀ y ∈ d, ¬ g.Mutual x y :=
    ⟨fun _ _ away y hy x hx both => away x hx y hy both.symm⟩
  by_cases same : c = d
  · exact same ▸ mem
  · exact absurd both (apart.forall hc hd same a ha b mem)

/-- Every node lies in a component, together with all nodes that it reaches and is reached from. -/
theorem exists_component (ha : a ∈ g.keys) :
    ∃ c ∈ g.components, a ∈ c ∧ ∀ b ∈ g.keys, g.Mutual a b → b ∈ c := by
  obtain ⟨c, hc, mem⟩ := List.mem_flatten.1 (((emitted_components g).2 a).2 ha)
  exact ⟨c, hc, mem, fun b hb both => (mem_component_iff hc mem).2.2 ⟨hb, both⟩⟩

theorem exists_shared_component_iff (ha : a ∈ g.keys) (hb : b ∈ g.keys) :
    (∃ c ∈ g.components, a ∈ c ∧ b ∈ c) ↔ g.Mutual a b := by
  constructor
  · rintro ⟨c, hc, inA, inB⟩
    exact ((mem_component_iff hc inA).2.1 inB).2
  · intro both
    obtain ⟨c, hc, inA, all⟩ := exists_component ha
    exact ⟨c, hc, inA, all b hb both⟩

/-- A way that leads back to its start stays within the component of the start. -/
theorem transGen_within {R E : α → α → Prop} (le : R ≤ g.Edge) (ha : a ∈ c)
    (all : ∀ b ∈ g.keys, g.Mutual a b → b ∈ c)
    (edge : ∀ x ∈ c, ∀ y ∈ c, R x y → E x y) (path : TransGen R a b)
    (back : ReflTransGen R b a) : TransGen E a b := by
  have inside {x : α} (path : TransGen R a x) (back : ReflTransGen R x a) : x ∈ c := by
    obtain ⟨y, -, last⟩ := TransGen.tail'_iff.1 path
    exact all x (le _ _ last).2 ⟨.mono le _ _ path.to_reflTransGen, .mono le _ _ back⟩
  induction path with
  | single step => exact .single (edge a ha _ (inside (.single step) back) step)
  | @tail x y path step ih =>
    have back' : ReflTransGen R x a := .head step back
    exact .tail (ih back') (edge x (inside path back') y (inside (path.tail step) back) step)

/-- A component with a node that reaches itself has several nodes or an edge from its only one. -/
theorem isRecursive_of_cycle (ha : a ∈ c) (all : ∀ b ∈ g.keys, g.Mutual a b → b ∈ c)
    (cycle : TransGen g.Edge a a) : g.isRecursive c = true := by
  match c with
  | [b] =>
    obtain rfl := List.mem_singleton.1 ha
    obtain ⟨next, edge, path⟩ := TransGen.head'_iff.1 cycle
    have same := List.mem_singleton.1 (all next edge.2 ⟨.single edge, path⟩)
    rw [isRecursive, decide_eq_true_iff]
    exact same ▸ edge.1
  | _ :: _ :: _ => simp [isRecursive]

/-- Every node of a recursive component reaches itself. -/
theorem cycle_of_isRecursive (hc : c ∈ g.components) (recursive : g.isRecursive c = true)
    (ha : a ∈ c) : TransGen g.Edge a a := by
  by_cases other : ∃ b ∈ c, b ≠ a
  · obtain ⟨b, hb, apart⟩ := other
    obtain ⟨forth, back⟩ := ((mem_component_iff hc ha).2.1 hb).2
    rcases ReflTransGen.cases_head forth with rfl | ⟨d, edge, rest⟩
    · exact absurd rfl apart
    · exact TransGen.head'_iff.2 ⟨d, edge, rest.trans back⟩
  · have single : ∀ b ∈ c, b = a := fun b hb =>
      Classical.byContradiction fun apart => other ⟨b, hb, apart⟩
    obtain rfl : c = [a] := by
      match c, nodup_component hc with
      | [b], _ => rw [single b (by simp)]
      | b :: d :: _, nodup =>
        have same : b = d := (single b (by simp)).trans (single d (by simp)).symm
        simp [same] at nodup
    rw [isRecursive, decide_eq_true_iff] at recursive
    exact .single ⟨recursive, (mem_component_iff hc (b := a) ha).1⟩

/-- What the components of a graph should be: the classes of nodes that reach each other, each one
after those it leads to, and marked as recursive if a node of it reaches itself. -/
structure Condenses (g : Graph α) (components : List (List α)) : Prop where
  partition : components.flatten.Perm g.keys
  nonempty : ∀ c ∈ components, c ≠ []
  shared : ∀ a ∈ g.keys, ∀ b ∈ g.keys, (∃ c ∈ components, a ∈ c ∧ b ∈ c)
    ↔ ReflTransGen g.Edge a b ∧ ReflTransGen g.Edge b a
  ordered : components.Pairwise fun earlier later =>
    ∀ a ∈ earlier, ∀ b ∈ later, ¬ ReflTransGen g.Edge a b
  recursive : ∀ c ∈ components, g.isRecursive c = true ↔ ∃ a ∈ c, TransGen g.Edge a a

theorem condenses_components (g : Graph α) : g.Condenses g.components where
  partition := flatten_components_perm g
  nonempty _ hc := ne_nil_of_mem_components hc
  shared _ ha _ hb := exists_shared_component_iff ha hb
  ordered := ordered_components g
  recursive c hc := by
    constructor
    · intro recursive
      obtain ⟨a, ha⟩ := List.exists_mem_of_ne_nil c (ne_nil_of_mem_components hc)
      exact ⟨a, ha, cycle_of_isRecursive hc recursive ha⟩
    · rintro ⟨a, ha, cycle⟩
      exact isRecursive_of_cycle ha
        (fun b hb both => (mem_component_iff hc ha).2.2 ⟨hb, both⟩) cycle

end Productions.Graph
