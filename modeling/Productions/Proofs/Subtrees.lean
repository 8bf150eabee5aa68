import Productions.Expr.Basic
import Productions.Grammar.Basic

/-! Subtrees of rules and of expressions. What holds of every subtree of a tree holds of the tree
and of every subtree of its direct parts. -/
namespace Productions

namespace Rule

/-- The rules within a rule are the rule itself and those within its direct parts. -/
inductive Within (s : Rule) : Rule → Prop where
  | self : Within s s
  | child {r c} (mem : c ∈ r.children) (inner : Within s c) : Within s r

theorem within_iff {s r : Rule} : Within s r ↔ s = r ∨ ∃ c ∈ r.children, Within s c := by
  constructor
  · intro h
    cases h with
    | self => exact .inl rfl
    | child mem inner => exact .inr ⟨_, mem, inner⟩
  · rintro (rfl | ⟨c, mem, inner⟩)
    · exact .self
    · exact .child mem inner

theorem forall_within_iff {p : Rule → Prop} {r : Rule} :
    (∀ s, Within s r → p s) ↔ p r ∧ ∀ c ∈ r.children, ∀ s, Within s c → p s := by
  constructor
  · intro h
    exact ⟨h r .self, fun c mem s inner => h s (.child mem inner)⟩
  · rintro ⟨top, below⟩ s h
    cases h with
    | self => exact top
    | child mem inner => exact below _ mem s inner

theorem induction_children {motive : Rule → Prop}
    (step : ∀ r, (∀ c ∈ r.children, motive c) → motive r) (r : Rule) : motive r := by
  induction r with
  | terminal | symbol => exact step _ (by simp [children])
  | seq members ih | choice members ih => exact step _ ih
  | repeated _ _ ih | optional _ ih | token _ _ ih | prec _ _ _ ih | aliased _ _ _ ih
  | field _ _ ih => exact step _ (by simpa [children] using ih)

theorem exists_within_iff {found here : Rule → Prop}
    (step : ∀ r, found r ↔ here r ∨ ∃ c ∈ r.children, found c) (r : Rule) :
    found r ↔ ∃ s, Within s r ∧ here s := by
  induction r using induction_children with
  | step r ih =>
    rw [step]
    constructor
    · rintro (top | ⟨c, mem, inner⟩)
      · exact ⟨r, .self, top⟩
      · obtain ⟨s, inside, below⟩ := (ih c mem).1 inner
        exact ⟨s, .child mem inside, below⟩
    · rintro ⟨s, inside, below⟩
      rcases within_iff.1 inside with rfl | ⟨c, mem, inner⟩
      · exact .inl below
      · exact .inr ⟨c, mem, (ih c mem).2 ⟨s, inner, below⟩⟩

end Rule

namespace Expr

inductive Within (s : Expr) : Expr → Prop where
  | self : Within s s
  | child {e c} (mem : c ∈ e.children) (inner : Within s c) : Within s e

theorem within_iff {s e : Expr} : Within s e ↔ s = e ∨ ∃ c ∈ e.children, Within s c := by
  constructor
  · intro h
    cases h with
    | self => exact .inl rfl
    | child mem inner => exact .inr ⟨_, mem, inner⟩
  · rintro (rfl | ⟨c, mem, inner⟩)
    · exact .self
    · exact .child mem inner

theorem induction_children {motive : Expr → Prop}
    (step : ∀ e, (∀ c ∈ e.children, motive c) → motive e) (e : Expr) : motive e := by
  induction e with
  | symbol => exact step _ (by simp [children])
  | seq members ih | choice members ih => exact step _ ih
  | repeated _ ih | prec _ _ _ ih | aliased _ _ _ ih | field _ _ ih =>
    exact step _ (by simpa [children] using ih)

theorem exists_within_iff {found here : Expr → Prop}
    (step : ∀ e, found e ↔ here e ∨ ∃ c ∈ e.children, found c) (e : Expr) :
    found e ↔ ∃ s, Within s e ∧ here s := by
  induction e using induction_children with
  | step e ih =>
    rw [step]
    constructor
    · rintro (top | ⟨c, mem, inner⟩)
      · exact ⟨e, .self, top⟩
      · obtain ⟨s, inside, below⟩ := (ih c mem).1 inner
        exact ⟨s, .child mem inside, below⟩
    · rintro ⟨s, inside, below⟩
      rcases within_iff.1 inside with rfl | ⟨c, mem, inner⟩
      · exact .inl below
      · exact .inr ⟨c, mem, (ih c mem).2 ⟨s, inner, below⟩⟩

end Expr

end Productions
