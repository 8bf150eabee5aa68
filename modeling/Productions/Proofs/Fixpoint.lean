import Mathlib.Data.List.Perm.Subperm
import Mathlib.Logic.Function.Iterate
import Productions.Ordered.Set

/-! Least fixed points. Rounds only add names, every round that changes something adds one, and
there are no more names than bodies. So the rounds end in a set that is closed under the bodies, and
it is contained in every closed set. -/
namespace Productions

section Settle

variable {α : Type} [DecidableEq α] {step : α → α}

/-- A step that adds to a bounded measure whenever it changes something is settled in time. -/
theorem step_settle (measure : α → Nat) (bound : Nat) (good : α → Prop)
    (keeps : ∀ a, good a → good (step a)) (bounded : ∀ a, good a → measure a ≤ bound)
    (adds : ∀ a, good a → step a ≠ a → measure a < measure (step a)) :
    (fuel : Nat) → (a : α) → good a → bound < fuel + measure a →
    step (settle step fuel a) = settle step fuel a
  | 0, a, ha, enough => by
    have := bounded a ha
    omega
  | fuel + 1, a, ha, enough => by
    rw [settle]
    by_cases same : step a = a
    · rw [if_pos same]
      exact same
    · rw [if_neg same]
      have := adds a ha same
      exact step_settle measure bound good keeps bounded adds fuel (step a) (keeps a ha) (by omega)

theorem settle_induction (good : α → Prop) (keeps : ∀ a, good a → good (step a)) :
    (fuel : Nat) → (a : α) → good a → good (settle step fuel a)
  | 0, _, ha => ha
  | fuel + 1, a, ha => by
    rw [settle]
    by_cases same : step a = a
    · rw [if_pos same]
      exact ha
    · rw [if_neg same]
      exact settle_induction good keeps fuel (step a) (keeps a ha)

theorem exists_iterate_eq_settle : (fuel : Nat) → (a : α) →
    ∃ rounds, step^[rounds] a = settle step fuel a
  | 0, _ => ⟨0, rfl⟩
  | fuel + 1, a => by
    rw [settle]
    by_cases same : step a = a
    · rw [if_pos same]
      exact ⟨1, same⟩
    · rw [if_neg same]
      obtain ⟨rounds, reached⟩ := exists_iterate_eq_settle fuel (step a)
      exact ⟨rounds + 1, reached⟩

end Settle

namespace OrderedSet

variable {κ β : Type} [DecidableEq κ] {holds : (κ → Bool) → β → Bool}

theorem prefix_insert (s : OrderedSet κ) (k : κ) : s.toList <+: (s.insert k).toList := by
  rw [toList_insert]
  split
  · exact List.prefix_rfl
  · exact List.prefix_append _ _

def closeWith (holds : (κ → Bool) → β → Bool) (s : OrderedSet κ) (e : κ × β) : OrderedSet κ :=
  if s.contains e.1 then s else if holds s.contains e.2 then s.insert e.1 else s

theorem prefix_closeWith (s : OrderedSet κ) (e : κ × β) :
    s.toList <+: (closeWith holds s e).toList := by
  unfold closeWith
  split
  · exact List.prefix_rfl
  · split
    · exact prefix_insert s e.1
    · exact List.prefix_rfl

theorem closeOnce_eq (bodies : List (κ × β)) (s : OrderedSet κ) :
    closeOnce holds bodies s = bodies.foldl (closeWith holds) s := rfl

theorem prefix_closeOnce (holds : (κ → Bool) → β → Bool) (bodies : List (κ × β))
    (s : OrderedSet κ) :
    s.toList <+: (closeOnce holds bodies s).toList := by
  rw [closeOnce_eq]
  induction bodies generalizing s with
  | nil => exact List.prefix_rfl
  | cons e es ih => exact (prefix_closeWith s e).trans (ih _)

omit [DecidableEq κ] in
theorem eq_of_prefixes {s t : OrderedSet κ} (h : s.toList <+: t.toList)
    (h' : t.toList <+: s.toList) : s = t :=
  ext (h.eq_of_length (Nat.le_antisymm h.length_le h'.length_le))

theorem mem_of_closeOnce_eq {bodies : List (κ × β)} {s : OrderedSet κ}
    (same : closeOnce holds bodies s = s) :
    ∀ e ∈ bodies, holds s.contains e.2 = true → e.1 ∈ s := by
  rw [closeOnce_eq] at same
  induction bodies generalizing s with
  | nil => simp
  | cons e es ih =>
    rw [List.foldl_cons] at same
    have rest : (closeWith holds s e).toList <+: s.toList := by
      have := prefix_closeOnce holds es (closeWith holds s e)
      rwa [closeOnce_eq, same] at this
    have first : closeWith holds s e = s := eq_of_prefixes rest (prefix_closeWith s e)
    rw [first] at same
    intro f hf hholds
    rcases List.mem_cons.1 hf with rfl | hf
    · by_contra absent
      unfold closeWith at first
      rw [if_neg (by simpa using absent), if_pos hholds] at first
      have added : f.1 ∈ s.insert f.1 := mem_insert.2 (.inr rfl)
      rw [first] at added
      exact absent added
    · exact ih same f hf hholds

theorem mem_closeOnce {bodies : List (κ × β)} {s : OrderedSet κ} {p : κ → Prop}
    (closed : ∀ t : OrderedSet κ, (∀ k ∈ t, p k) → ∀ e ∈ bodies,
      holds t.contains e.2 = true → p e.1)
    (old : ∀ k ∈ s, p k) : ∀ k ∈ closeOnce holds bodies s, p k := by
  rw [closeOnce_eq]
  induction bodies generalizing s with
  | nil => exact old
  | cons e es ih =>
    refine ih (fun t ht f hf => closed t ht f (by simp [hf])) fun k hk => ?_
    unfold closeWith at hk
    split at hk
    · exact old k hk
    · split at hk <;> rename_i hholds
      · rcases mem_insert.1 hk with hk | rfl
        · exact old k hk
        · exact closed s old e (by simp) hholds
      · exact old k hk

variable (bodies : List (κ × β))

/-- The rounds end in a set that is closed under the bodies. -/
theorem closeOnce_leastClosed :
    closeOnce holds bodies (leastClosed holds bodies) = leastClosed holds bodies := by
  refine step_settle size bodies.length (fun s => ∀ k ∈ s, k ∈ bodies.map Prod.fst)
    (fun s hs => mem_closeOnce (fun t _ e he _ => List.mem_map_of_mem he) hs) ?_ ?_ _ _ ?_ ?_
  · intro s hs
    have := (List.subperm_of_subset s.nodup hs).length_le
    rwa [List.length_map] at this
  · intro s _ changed
    have grown := prefix_closeOnce holds bodies s
    refine Nat.lt_of_le_of_ne grown.length_le fun same => changed ?_
    exact (ext (grown.eq_of_length same)).symm
  · intro k hk
    cases hk
  · omega

/-- Repeated rounds come to the set that is found, and further rounds leave it as it is. -/
theorem rounds_leastClosed :
    ∃ rounds, ∀ more, (closeOnce holds bodies)^[more + rounds] ∅ = leastClosed holds bodies := by
  obtain ⟨rounds, reached⟩ : ∃ rounds, (closeOnce holds bodies)^[rounds] ∅
      = leastClosed holds bodies := exists_iterate_eq_settle _ _
  refine ⟨rounds, fun more => ?_⟩
  rw [Function.iterate_add_apply, reached]
  exact Function.iterate_fixed (closeOnce_leastClosed bodies) more

theorem mem_leastClosed_of_holds :
    ∀ e ∈ bodies, holds (leastClosed holds bodies).contains e.2 = true →
      e.1 ∈ leastClosed holds bodies :=
  mem_of_closeOnce_eq (closeOnce_leastClosed bodies)

/-- What is closed under the bodies holds of every name that is found. -/
theorem leastClosed_induction {p : κ → Prop}
    (closed : ∀ t : OrderedSet κ, (∀ k ∈ t, p k) → ∀ e ∈ bodies,
      holds t.contains e.2 = true → p e.1) : ∀ k ∈ leastClosed holds bodies, p k := by
  refine settle_induction (fun s => ∀ k ∈ s, p k)
    (fun s hs => mem_closeOnce closed hs) _ _ ?_
  intro k hk
  cases hk

theorem leastClosed_map {γ : Type} (change : γ → β) (bodies : List (κ × γ)) :
    leastClosed holds (bodies.map (Prod.map id change))
      = leastClosed (fun found b => holds found (change b)) bodies := by
  have round : closeOnce holds (bodies.map (Prod.map id change))
      = closeOnce (fun found b => holds found (change b)) bodies := by
    funext found
    rw [closeOnce, closeOnce, List.foldl_map]
    rfl
  rw [leastClosed, leastClosed, round, List.length_map]

end OrderedSet

end Productions
