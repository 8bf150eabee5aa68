import Mathlib.Data.List.Chain
import Mathlib.Data.List.Nodup
import Mathlib.Logic.Relation
import Mathlib.Tactic.ByContra
import Productions.Graph.Basic
import Productions.Proofs.Reachability

/-! Completeness and soundness of the search for cycles. A search that finds none leaves every node
after all its successors, so no node that it left can be reached from itself; what it finds is a
cycle. So it finds one exactly if one can be reached from a start. -/
namespace Productions.Graph

open Relation

variable {α : Type} [DecidableEq α] {g : Graph α}

/-- Nodes in an order in which edges lead forward only, into the list itself. -/
inductive Layered (g : Graph α) : List α → Prop where
  | nil : Layered g []
  | cons {a rest} (below : ∀ b, g.Edge a b → b ∈ rest) (layered : Layered g rest) :
      Layered g (a :: rest)

namespace Layered

theorem closed {nodes : List α} (h : g.Layered nodes) {a b : α}
    (ha : a ∈ nodes) (path : ReflTransGen g.Edge a b) : b ∈ nodes := by
  induction path with
  | refl => exact ha
  | @tail b c _ edge ih =>
    clear ha
    induction h with
    | nil => cases ih
    | cons below _ rest =>
      rcases List.mem_cons.1 ih with rfl | ih
      · exact List.mem_cons_of_mem _ (below c edge)
      · exact List.mem_cons_of_mem _ (rest ih)

/-- From the first node all paths lead into the rest, and they stay there. -/
theorem not_cycle {nodes : List α} (h : g.Layered nodes) {a : α} (ha : a ∈ nodes) :
    ¬ TransGen g.Edge a a := by
  intro cycle
  induction h with
  | nil => cases ha
  | @cons first rest below layered ih =>
    refine ih ?_
    rcases List.mem_cons.1 ha with rfl | ha
    · obtain ⟨b, edge, path⟩ := TransGen.head'_iff.1 cycle
      exact layered.closed (below b edge) path
    · exact ha

end Layered

/-- Where the search finds no cycle, it leaves the nodes it has to enter behind their successors.
The induction is on the nodes that are still missing, as in the search. -/
theorem cycleWalk_enters (nodes : List α) (tasks : List (Task α)) (path entered left : List α)
    (known : ∀ a ∈ entered, a ∈ path ∨ a ∈ left) (layered : g.Layered left)
    (none : g.cycleWalk (nodes.map .enter ++ tasks) path entered = none) :
    ∃ entered' left', g.cycleWalk tasks path entered' = .none ∧ entered ⊆ entered'
      ∧ left ⊆ left' ∧ (∀ a ∈ entered', a ∈ path ∨ a ∈ left') ∧ g.Layered left'
      ∧ ∀ a ∈ nodes, a ∈ g.keys → a ∈ left' := by
  match nodes with
  | [] => exact ⟨entered, left, none, fun _ h => h, fun _ h => h, known, layered, by simp⟩
  | a :: nodes =>
    rw [List.map_cons, List.cons_append, cycleWalk] at none
    by_cases onPath : a ∈ path
    · rw [if_pos onPath] at none
      cases none
    rw [if_neg onPath] at none
    by_cases fresh : a ∈ g.keys ∧ a ∉ entered
    · rw [dif_pos fresh] at none
      have entering : ∀ b ∈ entered ++ [a], b ∈ a :: path ∨ b ∈ left := by
        intro b hb
        rcases List.mem_append.1 hb with hb | hb
        · exact (known b hb).imp_left (List.mem_cons_of_mem _)
        · exact .inl (by simp [List.mem_singleton.1 hb])
      obtain ⟨entered₁, left₁, none₁, grown₁, kept₁, known₁, layered₁, succ₁⟩ :=
        cycleWalk_enters (g.successors a) _ (a :: path) (entered ++ [a]) left entering layered none
      rw [cycleWalk, List.tail_cons] at none₁
      have layered₂ : g.Layered (a :: left₁) :=
        .cons (fun b edge => succ₁ b edge.1 edge.2) layered₁
      have known₂ : ∀ b ∈ entered₁, b ∈ path ∨ b ∈ a :: left₁ := by
        intro b hb
        rcases known₁ b hb with hb | hb
        · exact (List.mem_cons.1 hb).elim (fun same => .inr (by simp [same])) .inl
        · exact .inr (List.mem_cons_of_mem _ hb)
      obtain ⟨entered₂, left₂, none₂, grown₂, kept₂, known₃, layered₃, rest⟩ :=
        cycleWalk_enters nodes tasks path entered₁ (a :: left₁) known₂ layered₂ none₁
      refine ⟨entered₂, left₂, none₂, fun b hb => grown₂ (grown₁ (by simp [hb])),
        fun b hb => kept₂ (List.mem_cons_of_mem _ (kept₁ hb)), known₃, layered₃, ?_⟩
      intro b hb inside
      rcases List.mem_cons.1 hb with rfl | hb
      · exact kept₂ (by simp)
      · exact rest b hb inside
    · rw [dif_neg fresh] at none
      obtain ⟨entered', left', none', grown, kept, known', layered', rest⟩ :=
        cycleWalk_enters nodes tasks path entered left known layered none
      refine ⟨entered', left', none', grown, kept, known', layered', ?_⟩
      intro b hb inside
      rcases List.mem_cons.1 hb with rfl | hb
      · have old : b ∈ entered := by
          by_contra new
          exact fresh ⟨inside, new⟩
        exact kept ((known b old).resolve_left onPath)
      · exact rest b hb inside
  termination_by ((g.missing entered).length, nodes.length)
  decreasing_by
    · exact Prod.Lex.left _ _ (length_missing_lt fresh.1 fresh.2 (List.Subset.refl _))
    · exact Prod.Lex.left _ _ (length_missing_lt fresh.1 fresh.2 grown₁)
    · exact Prod.Lex.right _ (by simp)

theorem exists_layered {starts : List α} (none : g.findCycle starts = none) :
    ∃ left, g.Layered left ∧ ∀ a ∈ starts, a ∈ g.keys → a ∈ left := by
  rw [findCycle, ← List.append_nil (starts.map _)] at none
  obtain ⟨_, left, -, -, -, -, layered, all⟩ :=
    cycleWalk_enters starts [] [] [] [] (by simp) .nil none
  exact ⟨left, layered, all⟩

/-- The search finds a cycle if one leads through a start. -/
theorem exists_findCycle {starts : List α} {a : α} (ha : a ∈ starts)
    (cycle : TransGen g.Edge a a) : ∃ found, g.findCycle starts = some found := by
  by_contra none
  rw [← Option.isSome_iff_exists, Option.not_isSome_iff_eq_none] at none
  obtain ⟨left, layered, all⟩ := exists_layered none
  obtain ⟨b, _, edge⟩ := TransGen.tail'_iff.1 cycle
  exact layered.not_cycle (all a ha edge.2) cycle

end Productions.Graph

/-! The path from the start to the node at hand leads along edges through distinct nodes, and every
task above the end of a node is one of its successors. -/
namespace Productions

open Relation

variable {α : Type}

/-- Distinct nodes of which each one leads to the next, and the last one back to the first. -/
structure IsCircle (R : α → α → Prop) (cycle : List α) : Prop where
  nonempty : cycle ≠ []
  distinct : cycle.Nodup
  closed : (cycle ++ cycle.head?.toList).IsChain R

namespace IsCircle

variable {R S : α → α → Prop} {cycle : List α}

theorem imp (h : IsCircle R cycle) (le : R ≤ S) : IsCircle S cycle :=
  ⟨h.nonempty, h.distinct, h.closed.imp le⟩

/-- Every node of a circle leads to every other one and back to itself. -/
theorem transGen (h : IsCircle R cycle) {a b : α} (ha : a ∈ cycle) (hb : b ∈ cycle) :
    TransGen R a b := by
  obtain ⟨first, rest, rfl⟩ := List.exists_cons_of_ne_nil h.nonempty
  have chain : (first :: (rest ++ [first])).IsChain (TransGen R) := h.closed.imp fun _ _ => .single
  obtain ⟨out, back⟩ := List.pairwise_cons.1 (List.isChain_iff_pairwise.1 chain)
  have onward : TransGen R first b := out b (by simp_all [or_comm])
  rcases List.mem_cons.1 ha with rfl | ha
  · exact onward
  · exact ((List.pairwise_append.1 back).2.2 a ha first (by simp)).trans onward

end IsCircle

namespace Graph

variable [DecidableEq α] {g : Graph α}

def Follows (g : Graph α) : List (Task α) → List α → Prop
  | [], _ => True
  | .enter b :: tasks, path => (∀ a ∈ path.head?, b ∈ g.successors a) ∧ Follows g tasks path
  | .leave _ :: tasks, path => Follows g tasks path.tail

theorem follows_append {bs : List α} {tasks : List (Task α)} {path : List α}
    (next : ∀ b ∈ bs, ∀ a ∈ path.head?, b ∈ g.successors a) (h : Follows g tasks path) :
    Follows g (bs.map .enter ++ tasks) path := by
  induction bs with
  | nil => exact h
  | cons b bs ih => exact ⟨next b (by simp), ih fun c hc => next c (by simp [hc])⟩

/-- A path backwards: distinct nodes, to each of which an edge leads from the one after it. -/
structure Tracked (g : Graph α) (path : List α) : Prop where
  chain : path.IsChain fun newer older => g.Edge older newer
  distinct : path.Nodup
  known : ∀ a ∈ path, a ∈ g.keys

namespace Tracked

variable {path : List α} {b : α}

theorem extended (h : Tracked g path) (inside : b ∈ g.keys)
    (next : ∀ a ∈ path.head?, b ∈ g.successors a) :
    (b :: path).IsChain fun newer older => g.Edge older newer :=
  List.isChain_cons.2 ⟨fun a ha => ⟨next a ha, inside⟩, h.chain⟩

theorem cons (h : Tracked g path) (inside : b ∈ g.keys) (new : b ∉ path)
    (next : ∀ a ∈ path.head?, b ∈ g.successors a) : Tracked g (b :: path) where
  chain := h.extended inside next
  distinct := List.nodup_cons.2 ⟨new, h.distinct⟩
  known := List.forall_mem_cons.2 ⟨inside, h.known⟩

theorem tail (h : Tracked g path) : Tracked g path.tail :=
  ⟨h.chain.tail, h.distinct.tail, fun a ha => h.known a (List.mem_of_mem_tail ha)⟩

/-- Coming to a node of the path again closes a circle. -/
theorem circle (h : Tracked g path) (onPath : b ∈ path)
    (next : ∀ a ∈ path.head?, b ∈ g.successors a) : IsCircle g.Edge (since path b) := by
  have again := h.extended (h.known b onPath) next
  obtain ⟨before, after, rfl, first⟩ := List.eq_append_cons_of_mem onPath
  rw [since_append first]
  refine ⟨List.cons_ne_nil _ _, List.nodup_cons.2 ⟨by simpa using first, ?_⟩, ?_⟩
  · exact List.nodup_reverse.2 (List.nodup_append.1 h.distinct).1
  · have round : (b :: (before ++ [b])).IsChain fun newer older => g.Edge older newer :=
      again.prefix ⟨after, by simp⟩
    simpa using List.isChain_reverse.2 round

end Tracked

theorem isCircle_of_cycleWalk (tasks : List (Task α)) (path entered : List α)
    (follows : Follows g tasks path) (tracked : Tracked g path) {found : List α}
    (h : g.cycleWalk tasks path entered = some found) : IsCircle g.Edge found := by
  induction tasks, path, entered using cycleWalk.induct g with
  | case1 path entered =>
    rw [cycleWalk] at h
    cases h
  | case2 a tasks path entered ih =>
    rw [cycleWalk] at h
    exact ih follows tracked.tail h
  | case3 a tasks path entered onPath =>
    rw [cycleWalk, if_pos onPath] at h
    cases h
    exact tracked.circle onPath follows.1
  | case4 a tasks path entered offPath fresh ih =>
    rw [cycleWalk, if_neg offPath, dif_pos fresh] at h
    refine ih (follows_append (fun b hb top same => ?_) follows.2)
      (tracked.cons fresh.1 offPath follows.1) h
    cases same
    exact hb
  | case5 a tasks path entered offPath done ih =>
    rw [cycleWalk, if_neg offPath, dif_neg done] at h
    exact ih follows.2 tracked h

/-- What the search finds is a circle of edges. -/
theorem isCircle_of_findCycle {starts found : List α} (h : g.findCycle starts = some found) :
    IsCircle g.Edge found := by
  refine isCircle_of_cycleWalk _ _ _ ?_ ⟨.nil, .nil, by simp⟩ h
  rw [← List.append_nil (starts.map _)]
  exact follows_append (by simp) trivial

theorem exists_cycle_of_findCycle {starts found : List α} (h : g.findCycle starts = some found) :
    ∃ a, TransGen g.Edge a a := by
  have circle := isCircle_of_findCycle h
  obtain ⟨a, mem⟩ := List.exists_mem_of_ne_nil _ circle.nonempty
  exact ⟨a, circle.transGen mem mem⟩

/-! A successor that is no node of the graph has no successors. So whatever leads on is a node, and a
way to a node leads through nodes only. -/

variable {starts : List α} {a b : α}

/-- A step from a node to one of its successors, in the graph or not. -/
def Arc (g : Graph α) (a b : α) : Prop := b ∈ g.successors a

theorem edge_le_arc : g.Edge ≤ g.Arc := fun _ _ edge => edge.1

theorem Arc.mem_keys (arc : g.Arc a b) : a ∈ g.keys := by
  by_contra outside
  rw [Arc, successors, OrderedMap.getD, OrderedMap.get?_eq_none_iff.2 outside] at arc
  cases arc

theorem transGen_edge (path : TransGen g.Arc a b) (known : b ∈ g.keys) : TransGen g.Edge a b := by
  induction path with
  | single arc => exact .single ⟨arc, known⟩
  | tail _ arc ih => exact (ih arc.mem_keys).tail ⟨arc, known⟩

theorem reflTransGen_edge (path : ReflTransGen g.Arc a b) (known : b ∈ g.keys) :
    ReflTransGen g.Edge a b := by
  rcases reflTransGen_iff_eq_or_transGen.1 path with rfl | path
  · exact .refl
  · exact (transGen_edge path known).to_reflTransGen

/-- The search finds a cycle if one can be reached from a start. -/
theorem exists_findCycle_of_reached (ha : a ∈ starts) (path : ReflTransGen g.Arc a b)
    (cycle : TransGen g.Arc b b) : ∃ found, g.findCycle starts = some found := by
  by_contra none
  rw [← Option.isSome_iff_exists, Option.not_isSome_iff_eq_none] at none
  obtain ⟨left, layered, all⟩ := exists_layered none
  obtain ⟨_, out, -⟩ := TransGen.head'_iff.1 cycle
  have known : a ∈ g.keys := by
    rcases path.cases_head with rfl | ⟨_, arc, -⟩
    · exact out.mem_keys
    · exact arc.mem_keys
  have left : b ∈ left := layered.closed (all a ha known) (reflTransGen_edge path out.mem_keys)
  exact layered.not_cycle left (transGen_edge cycle out.mem_keys)

/-- What can be reached is closed under arcs, so the search never leaves it. -/
theorem cycleWalk_sound {p : α → Prop} (closed : ∀ a, p a → ∀ b, g.Arc a b → p b)
    (tasks : List (Task α)) (path entered : List α) (passed : ∀ a ∈ path, p a)
    (pending : ∀ a, .enter a ∈ tasks → p a) {found : List α}
    (h : g.cycleWalk tasks path entered = some found) : ∀ a ∈ found, p a := by
  induction tasks, path, entered using cycleWalk.induct g with
  | case1 path entered =>
    rw [cycleWalk] at h
    cases h
  | case2 a tasks path entered ih =>
    rw [cycleWalk] at h
    exact ih (fun b hb => passed b (List.mem_of_mem_tail hb))
      (fun b task => pending b (by simp [task]))
      h
  | case3 a tasks path entered onPath =>
    rw [cycleWalk, if_pos onPath] at h
    cases h
    intro b hb
    rcases List.mem_cons.1 hb with rfl | hb
    · exact passed b onPath
    · exact passed b ((List.takeWhile_sublist _).subset (List.mem_reverse.1 hb))
  | case4 a tasks path entered offPath fresh ih =>
    rw [cycleWalk, if_neg offPath, dif_pos fresh] at h
    have here := pending a (by simp)
    refine ih (List.forall_mem_cons.2 ⟨here, passed⟩) (fun b task => ?_) h
    rcases List.mem_append.1 task with task | task
    · obtain ⟨c, arc, same⟩ := List.mem_map.1 task
      cases same
      exact closed a here b arc
    · exact pending b (by simpa using Or.inr task)
  | case5 a tasks path entered offPath done ih =>
    rw [cycleWalk, if_neg offPath, dif_neg done] at h
    exact ih passed (fun b task => pending b (by simp [task])) h

theorem reached_of_findCycle {found : List α} (h : g.findCycle starts = some found)
    (hb : b ∈ found) : ∃ a ∈ starts, ReflTransGen g.Arc a b := by
  refine cycleWalk_sound (p := fun b => ∃ a ∈ starts, ReflTransGen g.Arc a b) ?_ _ _ _ (by simp)
    (fun a task => ?_) h b hb
  · rintro c ⟨a, ha, path⟩ d arc
    exact ⟨a, ha, path.tail arc⟩
  · exact ⟨a, by simpa using task, .refl⟩

/-- What a search for a cycle should answer: a circle that can be reached from a start, exactly if
there is one. -/
structure Answers (g : Graph α) (starts : List α) (answer : Option (List α)) : Prop where
  exact : answer.isSome ↔ ∃ a ∈ starts, ∃ b, ReflTransGen g.Arc a b ∧ TransGen g.Arc b b
  circle : ∀ cycle ∈ answer, IsCircle g.Arc cycle
  reached : ∀ cycle ∈ answer, ∃ a ∈ starts, ∀ b ∈ cycle, ReflTransGen g.Arc a b

theorem answers_findCycle (g : Graph α) (starts : List α) :
    g.Answers starts (g.findCycle starts) := by
  have circle {cycle : List α} (found : g.findCycle starts = some cycle) : IsCircle g.Arc cycle :=
    (isCircle_of_findCycle found).imp edge_le_arc
  have reached {cycle : List α} (found : g.findCycle starts = some cycle) :
      ∃ a ∈ starts, ∀ b ∈ cycle, ReflTransGen g.Arc a b := by
    obtain ⟨c, hc⟩ := List.exists_mem_of_ne_nil _ (circle found).nonempty
    obtain ⟨a, ha, path⟩ := reached_of_findCycle found hc
    exact ⟨a, ha, fun b hb => path.trans ((circle found).transGen hc hb).to_reflTransGen⟩
  refine ⟨?_, fun cycle found => circle found, fun cycle found => reached found⟩
  rw [Option.isSome_iff_exists]
  constructor
  · rintro ⟨cycle, found⟩
    obtain ⟨b, hb⟩ := List.exists_mem_of_ne_nil _ (circle found).nonempty
    obtain ⟨a, ha, path⟩ := reached found
    exact ⟨a, ha, b, path b hb, (circle found).transGen hb hb⟩
  · rintro ⟨a, ha, b, path, cycle⟩
    exact exists_findCycle_of_reached ha path cycle

def listReferences : Graph String := .ofList [
  ("file", .ofList ["comment", "list"]),
  ("list", .ofList ["word", "item"]),
  ("item", .ofList ["word", "list"]),
  ("word", .ofList [])]

/-- Two starts lead to no cycle, the third one to a cycle to which it does not belong. -/
theorem answers_findCycle_listReferences :
    listReferences.findCycle ["comment", "word", "file"] = some ["list", "item"]
      ∧ listReferences.Answers ["comment", "word", "file"] (some ["list", "item"]) := by
  have found : listReferences.findCycle ["comment", "word", "file"] = some ["list", "item"] := by
    have keys : listReferences.keys = ["file", "list", "item", "word"] := rfl
    have file : listReferences.successors "file" = ["comment", "list"] := rfl
    have list : listReferences.successors "list" = ["word", "item"] := rfl
    have item : listReferences.successors "item" = ["word", "list"] := rfl
    have word : listReferences.successors "word" = [] := rfl
    simp [findCycle, cycleWalk, since, keys, file, list, item, word]
  exact ⟨found, found ▸ answers_findCycle listReferences _⟩

end Graph

end Productions
