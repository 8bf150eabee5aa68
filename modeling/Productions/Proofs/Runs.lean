/-! Runs of stateful computations, taken apart at each step, what they preserve, and what they
return. -/
namespace Productions

variable {σ α β : Type}

theorem run_bind_eq_iff {m : StateM σ α} {f : α → StateM σ β} {s s'' : σ} {b : β} :
    (m >>= f).run s = (b, s'') ↔ ∃ a s', m.run s = (a, s') ∧ (f a).run s' = (b, s'') := by
  constructor
  · intro h
    exact ⟨(m.run s).1, (m.run s).2, rfl, h⟩
  · rintro ⟨a, s', hm, hf⟩
    have : (m >>= f).run s = (f (m.run s).1).run (m.run s).2 := rfl
    rw [this, hm]
    exact hf

theorem run_map_eq_iff {m : StateM σ α} {f : α → β} {s s' : σ} {b : β} :
    (f <$> m).run s = (b, s') ↔ ∃ a, m.run s = (a, s') ∧ f a = b := by
  constructor
  · intro h
    have split : (f <$> m).run s = (f (m.run s).1, (m.run s).2) := rfl
    rw [split, Prod.mk.injEq] at h
    exact ⟨(m.run s).1, Prod.ext rfl h.2, h.1⟩
  · rintro ⟨a, hm, rfl⟩
    have split : (f <$> m).run s = (f (m.run s).1, (m.run s).2) := rfl
    rw [split, hm]

theorem run_pure_eq_iff {s s' : σ} {a b : α} :
    (pure a : StateM σ α).run s = (b, s') ↔ a = b ∧ s = s' := by
  rw [show (pure a : StateM σ α).run s = (a, s) from rfl, Prod.mk.injEq]

theorem run_get_eq_iff {s s' a : σ} :
    (get : StateM σ σ).run s = (a, s') ↔ s = a ∧ s = s' := by
  rw [show (get : StateM σ σ).run s = (s, s) from rfl, Prod.mk.injEq]

theorem run_set_eq_iff {s s' a : σ} {u : PUnit} :
    (set a : StateM σ PUnit).run s = (u, s') ↔ a = s' := by
  rw [show (set a : StateM σ PUnit).run s = (⟨⟩, a) from rfl, Prod.mk.injEq]
  simp

theorem run_modify_eq_iff {s s' : σ} {f : σ → σ} {u : PUnit} :
    (modify f : StateM σ PUnit).run s = (u, s') ↔ f s = s' := by
  rw [show (modify f : StateM σ PUnit).run s = (⟨⟩, f s) from rfl, Prod.mk.injEq]
  simp

/-- What holds of the state before a computation holds after it. -/
def Preserves (p : σ → Prop) (m : StateM σ α) : Prop := ∀ s, p s → p (m.run s).2

namespace Preserves

variable {p : σ → Prop}

theorem of_pure (a : α) : Preserves p (pure a) := fun _ hs => hs

theorem bind {m : StateM σ α} {f : α → StateM σ β} (hm : Preserves p m)
    (hf : ∀ a, Preserves p (f a)) : Preserves p (m >>= f) :=
  fun s hs => hf (m.run s).1 (m.run s).2 (hm s hs)

theorem map {m : StateM σ α} (hm : Preserves p m) (f : α → β) : Preserves p (f <$> m) := hm

theorem get_bind {f : σ → StateM σ α} (hf : ∀ s, p s → p ((f s).run s).2) :
    Preserves p (get >>= f) := hf

theorem of_modify {f : σ → σ} (hf : ∀ s, p s → p (f s)) :
    Preserves p (modify f : StateM σ PUnit) := hf

end Preserves

def Yields (p : α → Prop) (m : StateM σ α) : Prop := ∀ s, p (m.run s).1

namespace Yields

variable {p : α → Prop} {q : β → Prop}

theorem of_pure {a : α} (ha : p a) : Yields p (pure a : StateM σ α) := fun _ => ha

theorem bind {m : StateM σ α} {f : α → StateM σ β} (hm : Yields p m)
    (hf : ∀ a, p a → Yields q (f a)) : Yields q (m >>= f) :=
  fun s => hf (m.run s).1 (hm s) (m.run s).2

theorem after (m : StateM σ α) {f : α → StateM σ β} (hf : ∀ a, Yields q (f a)) :
    Yields q (m >>= f) :=
  fun s => hf (m.run s).1 (m.run s).2

end Yields

end Productions
