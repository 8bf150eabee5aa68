import Mathlib.Logic.Relation
import Productions.Graph.Basic

/-! The search enters exactly the nodes that can be reached. While it runs, every successor of a
node that was entered has been entered too or is still to be looked at. -/
namespace Productions.Graph

open Relation

variable {α : Type} [DecidableEq α] {g : Graph α}

def Edge (g : Graph α) (a b : α) : Prop := b ∈ g.successors a ∧ b ∈ g.keys

/-- Successors of entered nodes are entered, or going to be. -/
def Pursued (g : Graph α) (pending entered : List α) : Prop :=
  ∀ a ∈ entered, ∀ b, g.Edge a b → b ∈ entered ∨ b ∈ pending

theorem Pursued.enter {a : α} {pending entered : List α} (h : g.Pursued (a :: pending) entered) :
    g.Pursued (g.successors a ++ pending) (entered ++ [a]) := by
  intro c hc b edge
  rcases List.mem_append.1 hc with hc | hc
  · rcases h c hc b edge with hb | hb
    · exact .inl (List.mem_append_left _ hb)
    · rcases List.mem_cons.1 hb with rfl | hb
      · exact .inl (List.mem_append_right _ (List.mem_singleton.2 rfl))
      · exact .inr (List.mem_append_right _ hb)
  · obtain rfl := List.mem_singleton.1 hc
    exact .inr (List.mem_append_left _ edge.1)

theorem Pursued.pass {a : α} {pending entered : List α} (h : g.Pursued (a :: pending) entered)
    (done : ¬ (a ∈ g.keys ∧ a ∉ entered)) : g.Pursued pending entered := by
  intro c hc b edge
  rcases h c hc b edge with hb | hb
  · exact .inl hb
  · rcases List.mem_cons.1 hb with rfl | hb
    · exact .inl (Classical.byContradiction fun new => done ⟨edge.2, new⟩)
    · exact .inr hb

/-- The search enters all it has to, and ends with nothing left to pursue. -/
theorem walk_complete (pending entered : List α) (h : g.Pursued pending entered) :
    g.Pursued [] (g.walk pending entered)
      ∧ (∀ a ∈ entered, a ∈ g.walk pending entered)
      ∧ ∀ a ∈ g.keys, a ∈ pending → a ∈ g.walk pending entered := by
  induction pending, entered using walk.induct g with
  | case1 entered =>
    rw [walk]
    exact ⟨h, fun _ ha => ha, fun _ _ hb => absurd hb (by simp)⟩
  | case2 a pending entered fresh ih =>
    rw [walk, if_pos fresh]
    obtain ⟨closed, old, new⟩ := ih h.enter
    refine ⟨closed, fun b hb => old b (List.mem_append_left _ hb), fun b inside hb => ?_⟩
    rcases List.mem_cons.1 hb with rfl | hb
    · exact old b (List.mem_append_right _ (List.mem_singleton.2 rfl))
    · exact new b inside (List.mem_append_right _ hb)
  | case3 a pending entered done ih =>
    rw [walk, if_neg done]
    obtain ⟨closed, old, new⟩ := ih (h.pass done)
    refine ⟨closed, old, fun b inside hb => ?_⟩
    rcases List.mem_cons.1 hb with rfl | hb
    · exact old b (Classical.byContradiction fun unseen => done ⟨inside, unseen⟩)
    · exact new b inside hb

/-- What can be reached is closed under successors, so the search never leaves it. -/
theorem walk_sound {p : α → Prop} (closed : ∀ a, p a → ∀ b, g.Edge a b → p b)
    (pending entered : List α) (passed : ∀ a ∈ entered, p a)
    (coming : ∀ a ∈ g.keys, a ∈ pending → p a) : ∀ a ∈ g.walk pending entered, p a := by
  induction pending, entered using walk.induct g with
  | case1 entered =>
    rw [walk]
    exact passed
  | case2 a pending entered fresh ih =>
    rw [walk, if_pos fresh]
    have here := coming a fresh.1 (by simp)
    refine ih (fun b hb => ?_) fun b inside hb => ?_
    · rcases List.mem_append.1 hb with hb | hb
      · exact passed b hb
      · rwa [List.mem_singleton.1 hb]
    · rcases List.mem_append.1 hb with hb | hb
      · exact closed a here b ⟨hb, inside⟩
      · exact coming b inside (List.mem_cons_of_mem _ hb)
  | case3 a pending entered done ih =>
    rw [walk, if_neg done]
    exact ih passed fun b inside hb => coming b inside (List.mem_cons_of_mem _ hb)

theorem mem_reach_iff {starts : List α} {b : α} :
    b ∈ g.reach starts ↔ ∃ a ∈ starts, a ∈ g.keys ∧ ReflTransGen g.Edge a b := by
  constructor
  · refine walk_sound (p := fun b => ∃ a ∈ starts, a ∈ g.keys ∧ ReflTransGen g.Edge a b)
      (fun c hc d edge => ?_) _ _ (by simp) (fun c inside hc => ⟨c, hc, inside, .refl⟩) b
    obtain ⟨a, ha, known, path⟩ := hc
    exact ⟨a, ha, known, path.tail edge⟩
  · rintro ⟨a, ha, known, path⟩
    obtain ⟨closed, -, new⟩ := walk_complete (g := g) starts [] (by simp [Pursued])
    induction path with
    | refl => exact new a known ha
    | tail _ edge ih => exact (closed _ ih _ edge).resolve_right (by simp)

end Productions.Graph
