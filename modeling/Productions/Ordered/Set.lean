/-! Ordered sets, and least fixed points by rounds. An ordered set is a list without repetitions in
which the first insertion of an element fixes its place. A step is repeated until it changes
nothing; where each change adds an element of a finite set, as many steps as it has elements
suffice. -/
namespace Productions

structure OrderedSet (α : Type) where
  toList : List α
  nodup : toList.Nodup
  deriving DecidableEq

namespace OrderedSet

variable {α : Type}

def empty : OrderedSet α := ⟨[], List.nodup_nil⟩

instance : EmptyCollection (OrderedSet α) := ⟨empty⟩
instance : Inhabited (OrderedSet α) := ⟨empty⟩
instance : Membership α (OrderedSet α) := ⟨fun s a => a ∈ s.toList⟩

@[simp] theorem mem_toList {s : OrderedSet α} {a : α} : a ∈ s.toList ↔ a ∈ s := Iff.rfl

@[simp] theorem toList_empty : (∅ : OrderedSet α).toList = [] := rfl

@[ext] theorem ext {s t : OrderedSet α} (h : s.toList = t.toList) : s = t := by
  cases s; cases t; cases h; rfl

variable [DecidableEq α]

instance (a : α) (s : OrderedSet α) : Decidable (a ∈ s) :=
  inferInstanceAs (Decidable (a ∈ s.toList))

def insert (s : OrderedSet α) (a : α) : OrderedSet α :=
  if h : a ∈ s.toList then s
  else ⟨s.toList ++ [a], by
    refine List.nodup_append.2 ⟨s.nodup, by simp, ?_⟩
    intro x hx y hy hxy
    simp only [List.mem_singleton] at hy
    exact h (hy ▸ hxy ▸ hx)⟩

theorem toList_insert (s : OrderedSet α) (a : α) :
    (s.insert a).toList = if a ∈ s then s.toList else s.toList ++ [a] := by
  unfold insert
  split <;> rename_i h
  · rw [if_pos (mem_toList.1 h)]
  · rw [if_neg (fun h' => h (mem_toList.2 h'))]

@[simp] theorem mem_insert {s : OrderedSet α} {a b : α} : b ∈ s.insert a ↔ b ∈ s ∨ b = a := by
  rw [← mem_toList, toList_insert]
  split <;> rename_i h
  · constructor
    · exact Or.inl
    · rintro (hb | rfl)
      · exact hb
      · exact h
  · simp

/-- Elements not yet present are appended in the order in which they are listed. -/
def insertAll (s : OrderedSet α) (xs : List α) : OrderedSet α :=
  xs.foldl insert s

@[simp] theorem mem_insertAll {s : OrderedSet α} {xs : List α} {b : α} :
    b ∈ s.insertAll xs ↔ b ∈ s ∨ b ∈ xs := by
  induction xs generalizing s with
  | nil => simp [insertAll]
  | cons x xs ih =>
    have := @ih (s.insert x)
    simp only [insertAll, List.foldl_cons] at this ⊢
    rw [this]
    simp [or_assoc]

def union (s t : OrderedSet α) : OrderedSet α := s.insertAll t.toList

@[simp] theorem mem_union {s t : OrderedSet α} {b : α} : b ∈ s.union t ↔ b ∈ s ∨ b ∈ t := by
  simp [union]

def ofList (xs : List α) : OrderedSet α := (∅ : OrderedSet α).insertAll xs

@[simp] theorem mem_ofList {xs : List α} {b : α} : b ∈ ofList xs ↔ b ∈ xs := by
  simp only [ofList, mem_insertAll]
  constructor
  · rintro (h | h)
    · cases h
    · exact h
  · exact Or.inr

theorem toList_insertAll_of_nodup {s : OrderedSet α} {xs : List α} (nodup : (s.toList ++ xs).Nodup) :
    (s.insertAll xs).toList = s.toList ++ xs := by
  induction xs generalizing s with
  | nil => simp [insertAll]
  | cons x xs ih =>
    have fresh : x ∉ s := fun h => (List.nodup_append.1 nodup).2.2 x h x (by simp) rfl
    have grown : (s.insert x).toList = s.toList ++ [x] := by rw [toList_insert, if_neg fresh]
    rw [insertAll, List.foldl_cons]
    exact (ih (by simpa [grown] using nodup)).trans (by simp [grown])

/-- A list without repetitions is kept as it is. -/
theorem toList_ofList_of_nodup {xs : List α} (nodup : xs.Nodup) : (ofList xs).toList = xs :=
  toList_insertAll_of_nodup (s := ∅) nodup

def contains (s : OrderedSet α) (a : α) : Bool := decide (a ∈ s)

@[simp] theorem contains_iff {s : OrderedSet α} {a : α} : s.contains a = true ↔ a ∈ s := by
  simp [contains]

def size (s : OrderedSet α) : Nat := s.toList.length

end OrderedSet

/-- Repeats a step until it changes nothing, at most `fuel` times. -/
def settle {α : Type} [DecidableEq α] (step : α → α) : (fuel : Nat) → α → α
  | 0, a => a
  | fuel + 1, a =>
    let b := step a
    if b = a then a else settle step fuel b

namespace OrderedSet

variable {κ β : Type} [DecidableEq κ]

/-- One round over named bodies: each name whose body holds of the names found so far is added. -/
def closeOnce (holds : (κ → Bool) → β → Bool) (bodies : List (κ × β)) (found : OrderedSet κ) :
    OrderedSet κ :=
  bodies.foldl
    (fun s e => if s.contains e.1 then s else if holds s.contains e.2 then s.insert e.1 else s)
    found

/-- The names that hold by rounds over the bodies, in the order in which they are found. -/
def leastClosed (holds : (κ → Bool) → β → Bool) (bodies : List (κ × β)) : OrderedSet κ :=
  settle (closeOnce holds bodies) (bodies.length + 1) ∅

end OrderedSet

end Productions
