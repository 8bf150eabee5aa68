import Mathlib.Logic.Relation
import Productions.Proofs.Nullability

/-! Unfolding of expressions to lists of items. An item is replaced by the members of a sequence, by
one alternative of a choice, by any number of rounds of a repetition, by what an annotation is
around, or by nothing if it derives the empty text without any token. The search for targets at
either end of an expression passes over such items and finds exactly the targets that can come to
stand at that end of an unfolding. -/
namespace Productions

open Relation

/-- The variables alone. Lexical entries and external tokens derive nothing. -/
def Numbering.tokenless (n : Numbering) : Numbering := ⟨n.bodies, [], []⟩

/-- The verdict on symbols by which tables are made. -/
abbrev Numbering.omissible (n : Numbering) : Symbol → Bool := n.verdict fun _ => false

namespace Expr

inductive Opens (n : Numbering) : Expr → List Expr → Prop where
  | seq (es) : Opens n (.seq es) es
  | choice {e es} (mem : e ∈ es) : Opens n (.choice es) [e]
  | repeated (e) (rounds : ℕ) : Opens n (.repeated e) (.replicate rounds e)
  | prec (v a e) : Opens n (.prec v a e) [e]
  | aliased (e v m) : Opens n (.aliased e v m) [e]
  | field (m e) : Opens n (.field m e) [e]
  | leaveOut {e} (empty : e.DerivesEmpty n.tokenless) : Opens n e []

inductive UnfoldStep (n : Numbering) : List Expr → List Expr → Prop where
  | replace (before : List Expr) {e es} (opens : Opens n e es) (after : List Expr) :
      UnfoldStep n (before ++ e :: after) (before ++ es ++ after)

def Unfolds (n : Numbering) : List Expr → List Expr → Prop := ReflTransGen (UnfoldStep n)

/-- An expression can be unfolded to a list that begins with a target. -/
def CanBegin (n : Numbering) (target : Symbol → Prop) (e : Expr) : Prop :=
  ∃ s items, target s ∧ Unfolds n [e] (.symbol s :: items)

def CanEnd (n : Numbering) (target : Symbol → Prop) (e : Expr) : Prop :=
  ∃ s items, target s ∧ Unfolds n [e] (items ++ [.symbol s])

variable {n : Numbering}

theorem Opens.unfolds {e : Expr} {es : List Expr} (h : Opens n e es) : Unfolds n [e] es := by
  have step := UnfoldStep.replace [] h []
  rw [List.nil_append, List.nil_append, List.append_nil] at step
  exact .single step

theorem Unfolds.frame {a b : List Expr} (h : Unfolds n a b) (before after : List Expr) :
    Unfolds n (before ++ a ++ after) (before ++ b ++ after) := by
  induction h with
  | refl => exact .refl
  | tail _ step ih =>
    obtain ⟨x, opens, y⟩ := step
    refine ih.tail ?_
    have step := UnfoldStep.replace (before ++ x) opens (y ++ after)
    simpa only [List.append_assoc, List.cons_append] using step

theorem nullable_omissible_iff (e : Expr) :
    e.nullable n.omissible = true ↔ e.DerivesEmpty n.tokenless := by
  have judges : n.tokenless.Judges fun _ => false := ⟨by simp [Numbering.tokenless], fun _ => rfl⟩
  exact Numbering.nullable_iff_derivesEmpty judges e

theorem unfolds_nil_of_nullable {e : Expr} (nullable : e.nullable n.omissible = true) :
    Unfolds n [e] [] :=
  (Opens.leaveOut ((nullable_omissible_iff e).1 nullable)).unfolds

theorem unfolds_nil_of_everyNullable {es : List Expr}
    (nullable : everyNullable n.omissible es = true) : Unfolds n es [] := by
  induction es with
  | nil => exact .refl
  | cons e es ih =>
    rw [everyNullable, Bool.and_eq_true] at nullable
    have first := (unfolds_nil_of_nullable nullable.1).frame [] es
    exact first.trans (ih nullable.2)

variable {isNullable target : Symbol → Bool}

theorem everyNullable_append (xs ys : List Expr) : everyNullable isNullable (xs ++ ys)
    = (everyNullable isNullable xs && everyNullable isNullable ys) := by
  simp only [everyNullable_eq_all, List.all_append]

theorem Opens.nullable {e : Expr} {es : List Expr} (h : Opens n e es)
    (all : everyNullable n.omissible es = true) : e.nullable n.omissible = true := by
  cases h with
  | seq => exact all
  | @choice e es mem =>
    rw [Expr.nullable, someNullable_eq_any, List.any_eq_true]
    exact ⟨e, mem, by simpa [everyNullable] using all⟩
  | repeated => rfl
  | prec | aliased | field => simpa [everyNullable, Expr.nullable] using all
  | leaveOut empty => exact (nullable_omissible_iff e).2 empty

theorem seqStartsWith_append (xs ys : List Expr) : seqStartsWith target isNullable (xs ++ ys)
    = (seqStartsWith target isNullable xs
      || everyNullable isNullable xs && seqStartsWith target isNullable ys) := by
  induction xs with
  | nil => simp [seqStartsWith, everyNullable]
  | cons e xs ih =>
    rw [List.cons_append, seqStartsWith, ih, seqStartsWith, everyNullable, Bool.and_or_distrib_left,
      Bool.or_assoc, Bool.and_assoc]

theorem exists_startsWith_of_seqStartsWith {es : List Expr}
    (h : seqStartsWith target isNullable es = true) :
    ∃ e ∈ es, e.startsWith target isNullable = true := by
  induction es with
  | nil => cases h
  | cons e es ih =>
    rw [seqStartsWith, Bool.or_eq_true, Bool.and_eq_true] at h
    rcases h with h | ⟨-, h⟩
    · exact ⟨e, by simp, h⟩
    · obtain ⟨f, mem, hf⟩ := ih h
      exact ⟨f, by simp [mem], hf⟩

theorem someStartsWith_iff {es : List Expr} : someStartsWith target isNullable es = true
    ↔ ∃ e ∈ es, e.startsWith target isNullable = true := by
  induction es with
  | nil => simp [someStartsWith]
  | cons e es ih => simp [someStartsWith, ih]

theorem Opens.startsWith {e : Expr} {es : List Expr} (h : Opens n e es)
    (starts : seqStartsWith target n.omissible es = true) :
    e.startsWith target n.omissible = true := by
  obtain ⟨f, mem, hf⟩ := exists_startsWith_of_seqStartsWith starts
  cases h with
  | seq => exact starts
  | choice inside =>
    obtain rfl := List.mem_singleton.1 mem
    exact someStartsWith_iff.2 ⟨f, inside, hf⟩
  | repeated =>
    obtain rfl := List.eq_of_mem_replicate mem
    exact hf
  | prec | aliased | field =>
    obtain rfl := List.mem_singleton.1 mem
    exact hf
  | leaveOut => cases mem

theorem UnfoldStep.startsWith {a b : List Expr} (h : UnfoldStep n a b)
    (starts : seqStartsWith target n.omissible b = true) :
    seqStartsWith target n.omissible a = true := by
  obtain ⟨before, opens, after⟩ := h
  simp only [seqStartsWith_append, seqStartsWith, everyNullable_append, Bool.or_eq_true,
    Bool.and_eq_true] at starts ⊢
  rcases starts with (starts | ⟨passed, starts⟩) | ⟨⟨passed, none⟩, starts⟩
  · exact .inl starts
  · exact .inr ⟨passed, .inl (opens.startsWith starts)⟩
  · exact .inr ⟨passed, .inr ⟨opens.nullable none, starts⟩⟩

theorem Unfolds.startsWith {a b : List Expr} (h : Unfolds n a b)
    (starts : seqStartsWith target n.omissible b = true) :
    seqStartsWith target n.omissible a = true := by
  induction h with
  | refl => exact starts
  | tail _ step ih => exact ih (step.startsWith starts)

mutual

theorem canBegin_of_startsWith : (e : Expr) → e.startsWith target n.omissible = true →
    e.CanBegin n (target · = true)
  | symbol s, h => ⟨s, [], h, .refl⟩
  | seq members, h => by
    obtain ⟨s, items, hs, unfolds⟩ := exists_unfolds_of_seqStartsWith members h
    exact ⟨s, items, hs, (Opens.seq members).unfolds.trans unfolds⟩
  | choice members, h => by
    obtain ⟨e, mem, s, items, hs, unfolds⟩ := canBegin_of_someStartsWith members h
    exact ⟨s, items, hs, (Opens.choice mem).unfolds.trans unfolds⟩
  | repeated content, h => by
    obtain ⟨s, items, hs, unfolds⟩ := canBegin_of_startsWith content h
    exact ⟨s, items, hs, (Opens.repeated content 1).unfolds.trans unfolds⟩
  | prec v a content, h => by
    obtain ⟨s, items, hs, unfolds⟩ := canBegin_of_startsWith content h
    exact ⟨s, items, hs, (Opens.prec v a content).unfolds.trans unfolds⟩
  | aliased content v m, h => by
    obtain ⟨s, items, hs, unfolds⟩ := canBegin_of_startsWith content h
    exact ⟨s, items, hs, (Opens.aliased content v m).unfolds.trans unfolds⟩
  | field m content, h => by
    obtain ⟨s, items, hs, unfolds⟩ := canBegin_of_startsWith content h
    exact ⟨s, items, hs, (Opens.field m content).unfolds.trans unfolds⟩
  termination_by structural e => e

theorem exists_unfolds_of_seqStartsWith : (es : List Expr) →
    seqStartsWith target n.omissible es = true →
    ∃ s items, target s = true ∧ Unfolds n es (.symbol s :: items)
  | [], h => by cases h
  | e :: es, h => by
    rw [seqStartsWith, Bool.or_eq_true, Bool.and_eq_true] at h
    rcases h with h | ⟨none, h⟩
    · obtain ⟨s, items, hs, unfolds⟩ := canBegin_of_startsWith e h
      exact ⟨s, items ++ es, hs, unfolds.frame [] es⟩
    · obtain ⟨s, items, hs, unfolds⟩ := exists_unfolds_of_seqStartsWith es h
      exact ⟨s, items, hs, ((unfolds_nil_of_nullable none).frame [] es).trans unfolds⟩
  termination_by structural es => es

theorem canBegin_of_someStartsWith : (es : List Expr) →
    someStartsWith target n.omissible es = true → ∃ e ∈ es, e.CanBegin n (target · = true)
  | [], h => by cases h
  | e :: es, h => by
    rw [someStartsWith, Bool.or_eq_true] at h
    rcases h with h | h
    · exact ⟨e, by simp, canBegin_of_startsWith e h⟩
    · obtain ⟨f, mem, hf⟩ := canBegin_of_someStartsWith es h
      exact ⟨f, by simp [mem], hf⟩
  termination_by structural es => es

end

/-- The search from the left finds exactly the targets with which an unfolding can begin. -/
theorem startsWith_iff_canBegin (e : Expr) :
    e.startsWith target n.omissible = true ↔ e.CanBegin n (target · = true) := by
  refine ⟨canBegin_of_startsWith e, ?_⟩
  rintro ⟨s, items, hs, unfolds⟩
  have starts : seqStartsWith target n.omissible (symbol s :: items) = true := by
    rw [seqStartsWith, Expr.startsWith, hs, Bool.true_or]
  simpa [seqStartsWith] using unfolds.startsWith starts

theorem seqEndsWith_append (xs ys : List Expr) : seqEndsWith target isNullable (xs ++ ys)
    = (seqEndsWith target isNullable ys
      || everyNullable isNullable ys && seqEndsWith target isNullable xs) := by
  induction xs with
  | nil => simp [seqEndsWith]
  | cons e xs ih =>
    rw [List.cons_append, seqEndsWith, ih, seqEndsWith, everyNullable_append,
      Bool.and_or_distrib_left, Bool.or_assoc, Bool.and_assoc,
      Bool.and_left_comm (everyNullable isNullable xs)]

theorem exists_endsWith_of_seqEndsWith {es : List Expr}
    (h : seqEndsWith target isNullable es = true) :
    ∃ e ∈ es, e.endsWith target isNullable = true := by
  induction es with
  | nil => cases h
  | cons e es ih =>
    rw [seqEndsWith, Bool.or_eq_true, Bool.and_eq_true] at h
    rcases h with h | ⟨-, h⟩
    · obtain ⟨f, mem, hf⟩ := ih h
      exact ⟨f, by simp [mem], hf⟩
    · exact ⟨e, by simp, h⟩

theorem someEndsWith_iff {es : List Expr} : someEndsWith target isNullable es = true
    ↔ ∃ e ∈ es, e.endsWith target isNullable = true := by
  induction es with
  | nil => simp [someEndsWith]
  | cons e es ih => simp [someEndsWith, ih]

theorem Opens.endsWith {e : Expr} {es : List Expr} (h : Opens n e es)
    (ends : seqEndsWith target n.omissible es = true) :
    e.endsWith target n.omissible = true := by
  obtain ⟨f, mem, hf⟩ := exists_endsWith_of_seqEndsWith ends
  cases h with
  | seq => exact ends
  | choice inside =>
    obtain rfl := List.mem_singleton.1 mem
    exact someEndsWith_iff.2 ⟨f, inside, hf⟩
  | repeated =>
    obtain rfl := List.eq_of_mem_replicate mem
    exact hf
  | prec | aliased | field =>
    obtain rfl := List.mem_singleton.1 mem
    exact hf
  | leaveOut => cases mem

theorem UnfoldStep.endsWith {a b : List Expr} (h : UnfoldStep n a b)
    (ends : seqEndsWith target n.omissible b = true) :
    seqEndsWith target n.omissible a = true := by
  obtain ⟨before, opens, after⟩ := h
  simp only [seqEndsWith_append, seqEndsWith, everyNullable, Bool.or_eq_true,
    Bool.and_eq_true] at ends ⊢
  rcases ends with ends | ⟨passed, ends | ⟨none, ends⟩⟩
  · exact .inl (.inl ends)
  · exact .inl (.inr ⟨passed, opens.endsWith ends⟩)
  · exact .inr ⟨⟨opens.nullable none, passed⟩, ends⟩

theorem Unfolds.endsWith {a b : List Expr} (h : Unfolds n a b)
    (ends : seqEndsWith target n.omissible b = true) :
    seqEndsWith target n.omissible a = true := by
  induction h with
  | refl => exact ends
  | tail _ step ih => exact ih (step.endsWith ends)

mutual

theorem canEnd_of_endsWith : (e : Expr) → e.endsWith target n.omissible = true →
    e.CanEnd n (target · = true)
  | symbol s, h => ⟨s, [], h, .refl⟩
  | seq members, h => by
    obtain ⟨s, items, hs, unfolds⟩ := exists_unfolds_of_seqEndsWith members h
    exact ⟨s, items, hs, (Opens.seq members).unfolds.trans unfolds⟩
  | choice members, h => by
    obtain ⟨e, mem, s, items, hs, unfolds⟩ := canEnd_of_someEndsWith members h
    exact ⟨s, items, hs, (Opens.choice mem).unfolds.trans unfolds⟩
  | repeated content, h => by
    obtain ⟨s, items, hs, unfolds⟩ := canEnd_of_endsWith content h
    exact ⟨s, items, hs, (Opens.repeated content 1).unfolds.trans unfolds⟩
  | prec v a content, h => by
    obtain ⟨s, items, hs, unfolds⟩ := canEnd_of_endsWith content h
    exact ⟨s, items, hs, (Opens.prec v a content).unfolds.trans unfolds⟩
  | aliased content v m, h => by
    obtain ⟨s, items, hs, unfolds⟩ := canEnd_of_endsWith content h
    exact ⟨s, items, hs, (Opens.aliased content v m).unfolds.trans unfolds⟩
  | field m content, h => by
    obtain ⟨s, items, hs, unfolds⟩ := canEnd_of_endsWith content h
    exact ⟨s, items, hs, (Opens.field m content).unfolds.trans unfolds⟩
  termination_by structural e => e

theorem exists_unfolds_of_seqEndsWith : (es : List Expr) →
    seqEndsWith target n.omissible es = true →
    ∃ s items, target s = true ∧ Unfolds n es (items ++ [.symbol s])
  | [], h => by cases h
  | e :: es, h => by
    rw [seqEndsWith, Bool.or_eq_true, Bool.and_eq_true] at h
    rcases h with h | ⟨none, h⟩
    · obtain ⟨s, items, hs, unfolds⟩ := exists_unfolds_of_seqEndsWith es h
      have framed := unfolds.frame [e] []
      rw [List.append_nil, List.append_nil] at framed
      exact ⟨s, e :: items, hs, framed⟩
    · obtain ⟨s, items, hs, unfolds⟩ := canEnd_of_endsWith e h
      have emptied := (unfolds_nil_of_everyNullable none).frame [e] []
      rw [List.append_nil, List.append_nil] at emptied
      exact ⟨s, items, hs, emptied.trans unfolds⟩
  termination_by structural es => es

theorem canEnd_of_someEndsWith : (es : List Expr) →
    someEndsWith target n.omissible es = true → ∃ e ∈ es, e.CanEnd n (target · = true)
  | [], h => by cases h
  | e :: es, h => by
    rw [someEndsWith, Bool.or_eq_true] at h
    rcases h with h | h
    · exact ⟨e, by simp, canEnd_of_endsWith e h⟩
    · obtain ⟨f, mem, hf⟩ := canEnd_of_someEndsWith es h
      exact ⟨f, by simp [mem], hf⟩
  termination_by structural es => es

end

/-- The search from the right finds exactly the targets with which an unfolding can end. -/
theorem endsWith_iff_canEnd (e : Expr) :
    e.endsWith target n.omissible = true ↔ e.CanEnd n (target · = true) := by
  refine ⟨canEnd_of_endsWith e, ?_⟩
  rintro ⟨s, items, hs, unfolds⟩
  have ends : seqEndsWith target n.omissible (items ++ [symbol s]) = true := by
    rw [seqEndsWith_append]
    simp [seqEndsWith, everyNullable, Expr.endsWith, hs]
  simpa [seqEndsWith, everyNullable] using unfolds.endsWith ends

end Expr

end Productions
