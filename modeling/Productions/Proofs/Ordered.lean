import Mathlib.Data.List.Forall2
import Mathlib.Data.List.Induction
import Productions.Ordered.Map
import Productions.Ordered.Set

/-! Ordered sets made from lists, and maps with related values. Only first occurrences count in a
set, so parts of a list can be replaced by others with the same first occurrences. -/
namespace Productions

namespace OrderedSet

variable {α β : Type} [DecidableEq α]

@[simp] theorem insertAll_nil (s : OrderedSet α) : s.insertAll [] = s := rfl

theorem insertAll_cons (s : OrderedSet α) (x : α) (xs : List α) :
    s.insertAll (x :: xs) = (s.insert x).insertAll xs := rfl

theorem insertAll_append (s : OrderedSet α) (xs ys : List α) :
    s.insertAll (xs ++ ys) = (s.insertAll xs).insertAll ys :=
  List.foldl_append

theorem insert_of_mem {s : OrderedSet α} {a : α} (h : a ∈ s) : s.insert a = s :=
  ext (by rw [toList_insert, if_pos h])

theorem insertAll_of_mem {s : OrderedSet α} {xs : List α} (h : ∀ x ∈ xs, x ∈ s) :
    s.insertAll xs = s := by
  induction xs with
  | nil => rfl
  | cons x xs ih =>
    rw [insertAll_cons, insert_of_mem (h x (by simp))]
    exact ih fun y hy => h y (by simp [hy])

/-- A list that is expanded after repetitions have been dropped has the first occurrences of the
list that is expanded as it stands. -/
theorem insertAll_flatMap_insertAll [DecidableEq β] (f : α → List β) (s : OrderedSet β)
    (t : OrderedSet α) (xs : List α) : s.insertAll ((t.insertAll xs).toList.flatMap f)
      = (s.insertAll (t.toList.flatMap f)).insertAll (xs.flatMap f) := by
  induction xs generalizing t with
  | nil => rfl
  | cons x xs ih =>
    have first : s.insertAll ((t.insert x).toList.flatMap f)
        = (s.insertAll (t.toList.flatMap f)).insertAll (f x) := by
      by_cases known : x ∈ t
      · rw [insert_of_mem known]
        refine (insertAll_of_mem fun y hy => ?_).symm
        exact mem_insertAll.2 (.inr (List.mem_flatMap.2 ⟨x, known, hy⟩))
      · rw [toList_insert, if_neg known, List.flatMap_append, insertAll_append]
        simp
    rw [insertAll_cons, ih, first, List.flatMap_cons, insertAll_append]

theorem ofList_flatMap_ofList [DecidableEq β] (f : α → List β) (xs : List α) :
    ofList ((ofList xs).toList.flatMap f) = ofList (xs.flatMap f) :=
  insertAll_flatMap_insertAll f ∅ ∅ xs

theorem insertAll_ofList (s : OrderedSet α) (xs : List α) :
    s.insertAll (ofList xs).toList = s.insertAll xs := by
  simpa [ofList, insertAll_cons] using insertAll_flatMap_insertAll (fun a => [a]) s ∅ xs

theorem insertAll_congr {xs ys : List α} (h : ofList xs = ofList ys) (s : OrderedSet α) :
    s.insertAll xs = s.insertAll ys := by
  rw [← insertAll_ofList, h, insertAll_ofList]

theorem ofList_append_congr {xs xs' ys ys' : List α} (h : ofList xs = ofList xs')
    (h' : ofList ys = ofList ys') : ofList (xs ++ ys) = ofList (xs' ++ ys') := by
  rw [ofList, insertAll_append, insertAll_congr h, insertAll_congr h', ← insertAll_append, ← ofList]

theorem ofList_flatMap_congr {γ : Type} {f g : γ → List α} {xs : List γ}
    (h : ∀ x ∈ xs, ofList (f x) = ofList (g x)) : ofList (xs.flatMap f) = ofList (xs.flatMap g) := by
  induction xs with
  | nil => rfl
  | cons x xs ih =>
    exact ofList_append_congr (h x (by simp)) (ih fun y hy => h y (by simp [hy]))

theorem toList_insertAll_map [DecidableEq β] {f : α → β} {s : OrderedSet α} {t : OrderedSet β}
    (same : t.toList = s.toList.map f) {xs : List α}
    (inj : ∀ x ∈ s.toList ++ xs, ∀ y ∈ s.toList ++ xs, f x = f y → x = y) :
    (t.insertAll (xs.map f)).toList = (s.insertAll xs).toList.map f := by
  induction xs generalizing s t with
  | nil => exact same
  | cons x xs ih =>
    have known : f x ∈ t ↔ x ∈ s := by
      rw [← mem_toList, same, List.mem_map]
      constructor
      · rintro ⟨y, hy, e⟩
        exact inj y (by simp [hy]) x (by simp) e ▸ hy
      · exact fun hx => ⟨x, hx, rfl⟩
    have grown : (t.insert (f x)).toList = (s.insert x).toList.map f := by
      rw [toList_insert, toList_insert]
      by_cases hx : x ∈ s
      · rw [if_pos hx, if_pos (known.2 hx), same]
      · rw [if_neg hx, if_neg (mt known.1 hx), same, List.map_append]
        rfl
    rw [List.map_cons, insertAll_cons, insertAll_cons]
    have inside (z : α) (hz : z ∈ (s.insert x).toList ++ xs) : z ∈ s.toList ++ x :: xs := by
      simp only [List.mem_append, mem_toList, mem_insert, List.mem_cons] at hz ⊢
      tauto
    exact ih grown fun y hy z hz => inj y (inside y hy) z (inside z hz)

/-- A change that keeps different elements different keeps first occurrences. -/
theorem toList_ofList_map [DecidableEq β] {f : α → β} {xs : List α}
    (inj : ∀ x ∈ xs, ∀ y ∈ xs, f x = f y → x = y) :
    (ofList (xs.map f)).toList = (ofList xs).toList.map f :=
  toList_insertAll_map rfl (by simpa using inj)

theorem pairwise_idxOf (xs : List α) :
    (ofList xs).toList.Pairwise fun a b => xs.idxOf a < xs.idxOf b := by
  induction xs using List.reverseRecOn with
  | nil => exact .nil
  | append_singleton xs x ih =>
    have old : (ofList xs).toList.Pairwise fun a b => (xs ++ [x]).idxOf a < (xs ++ [x]).idxOf b := by
      refine ih.imp_of_mem fun {a b} ha hb lt => ?_
      rwa [List.idxOf_append_of_mem (mem_ofList.1 ha), List.idxOf_append_of_mem (mem_ofList.1 hb)]
    have grown : ofList (xs ++ [x]) = (ofList xs).insert x := insertAll_append ∅ xs [x]
    rw [grown, toList_insert]
    split <;> rename_i known
    · exact old
    · refine List.pairwise_append.2 ⟨old, List.pairwise_singleton _ _, ?_⟩
      intro a ha b hb
      rw [mem_ofList] at known
      rw [List.mem_singleton.1 hb, List.idxOf_append_of_mem (mem_ofList.1 ha),
        List.idxOf_append_of_notMem known]
      exact Nat.lt_of_lt_of_le (List.idxOf_lt_length_of_mem (mem_ofList.1 ha)) (Nat.le_add_right _ _)

theorem ofList_append_self (xs : List α) : ofList (xs ++ xs) = ofList xs := by
  rw [ofList, insertAll_append, insertAll_of_mem fun x hx => by simp [hx]]
  rfl

end OrderedSet

namespace OrderedMap

variable {κ α : Type} [DecidableEq κ]

theorem entries_foldl_insert {es : List (κ × α)} {m : OrderedMap κ α}
    (nodup : (m.keys ++ es.map Prod.fst).Nodup) :
    (es.foldl (fun m e => m.insert e.1 e.2) m).entries = m.entries ++ es := by
  induction es generalizing m with
  | nil => simp
  | cons e es ih =>
    have new : e.1 ∉ m.keys := fun known =>
      (List.nodup_append.1 nodup).2.2 _ known _ (by simp) rfl
    have grown : (m.insert e.1 e.2).entries = m.entries ++ [e] := by rw [insert, dif_neg new]
    have keys : (m.insert e.1 e.2).keys = m.keys ++ [e.1] := by
      rw [OrderedMap.keys, grown, List.map_append]
      rfl
    rw [List.foldl_cons, ih (by simpa [keys] using nodup), grown]
    simp

theorem mem_of_mem_foldl_insert {es : List (κ × α)} {m : OrderedMap κ α} {e : κ × α}
    (mem : e ∈ (es.foldl (fun m e => m.insert e.1 e.2) m).entries) : e ∈ m.entries ∨ e ∈ es := by
  induction es generalizing m with
  | nil => exact .inl mem
  | cons first es ih =>
    rcases ih mem with old | later
    · obtain ⟨x, b⟩ := e
      rw [← get?_eq_some_iff, get?_insert] at old
      split at old <;> rename_i same
      · obtain rfl := Option.some.inj old
        subst same
        exact .inr List.mem_cons_self
      · exact .inl (get?_eq_some_iff.1 old)
    · exact .inr (List.mem_cons_of_mem _ later)

theorem mem_of_mem_ofList {es : List (κ × α)} {e : κ × α} (mem : e ∈ (ofList es).entries) :
    e ∈ es :=
  (mem_of_mem_foldl_insert mem).resolve_left List.not_mem_nil

/-- Values that are worked into what a map has under their keys. -/
theorem get?_foldl_update {β : Type} (join : κ → Option α → β → α) {es : List (κ × β)}
    {m : OrderedMap κ α} (nodup : (es.map Prod.fst).Nodup) {k : κ} :
    (es.foldl (fun m e => m.insert e.1 (join e.1 (m.get? e.1) e.2)) m).get? k
      = (es.lookup k).elim (m.get? k) fun b => some (join k (m.get? k) b) := by
  induction es generalizing m with
  | nil => rfl
  | cons e es ih =>
    obtain ⟨x, b⟩ := e
    obtain ⟨new, rest⟩ := List.nodup_cons.1 nodup
    rw [List.foldl_cons, ih rest, get?_insert, List.lookup_cons]
    by_cases same : k = x
    · subst same
      have absent : es.lookup k = none := by
        rw [List.lookup_eq_none_iff]
        intro e mem
        exact bne_iff_ne.2 fun same => new (List.mem_map.2 ⟨e, mem, same.symm⟩)
      rw [absent, if_pos rfl, beq_self_eq_true]
      rfl
    · rw [if_neg same, beq_false_of_ne same]

theorem ofList_entries (m : OrderedMap κ α) : ofList m.entries = m :=
  ext ((entries_foldl_insert (m := ∅) m.nodup).trans (List.nil_append _))

end OrderedMap

section Keyed

variable {α β : Type} {key : α → β} {as : List α}

theorem place_eq_of_key_eq (distinct : (as.map key).Nodup) {i j : Nat} {a b : α}
    (first : as[i]? = some a) (second : as[j]? = some b) (same : key a = key b) : i = j := by
  have inside : i < (as.map key).length := by
    rw [List.length_map]
    exact (List.getElem?_eq_some_iff.1 first).1
  refine (List.getElem?_inj inside distinct).1 ?_
  rw [List.getElem?_map, List.getElem?_map, first, second, Option.map_some, Option.map_some, same]

variable [DecidableEq β]

/-- What is found by a key is related if every member has a related one of the same key. -/
theorem rel_find? {R : α → α → Prop} {bs : List α}
    (there : ∀ a ∈ as, ∃ b ∈ bs, key b = key a ∧ R a b) (back : ∀ b ∈ bs, ∃ a ∈ as, key a = key b)
    (distinct : ∀ b ∈ bs, ∀ b' ∈ bs, key b = key b' → b = b') (name : β) :
    Option.Rel R (as.find? fun a => key a == name) (bs.find? fun b => key b == name) := by
  cases found : as.find? fun a => key a == name with
  | none =>
    cases found' : bs.find? fun b => key b == name with
    | none => exact .none
    | some b =>
      obtain ⟨a, mem, same⟩ := back b (List.mem_of_find?_eq_some found')
      have named : (key b == name) = true := by simpa using List.find?_some found'
      exact absurd (same ▸ named) (List.find?_eq_none.1 found a mem)
  | some a =>
    have named : (key a == name) = true := by simpa using List.find?_some found
    obtain ⟨b, mem, same, related⟩ := there a (List.mem_of_find?_eq_some found)
    have known : (bs.find? fun b => key b == name).isSome :=
      List.find?_isSome.2 ⟨b, mem, same ▸ named⟩
    obtain ⟨b', found'⟩ := Option.isSome_iff_exists.1 known
    have named' : (key b' == name) = true := by simpa using List.find?_some found'
    obtain rfl := distinct b mem b' (List.mem_of_find?_eq_some found')
      (same.trans ((eq_of_beq named).trans (eq_of_beq named').symm))
    rw [found']
    exact .some related

end Keyed

section Related

variable {α β γ : Type} {R : α → β → Prop} {as : List α} {bs : List β}

theorem map_eq_of_forall₂ (h : List.Forall₂ R as bs) {f : α → γ} {g : β → γ}
    (same : ∀ a b, R a b → f a = g b) : as.map f = bs.map g := by
  rw [← List.forall₂_eq_eq_eq]
  exact List.rel_map (fun {a b} r => same a b r) h

theorem flatMap_eq_of_forall₂ (h : List.Forall₂ R as bs) {f : α → List γ} {g : β → List γ}
    (same : ∀ a b, R a b → f a = g b) : as.flatMap f = bs.flatMap g := by
  rw [List.flatMap_def, List.flatMap_def, map_eq_of_forall₂ h same]

theorem filterMap_eq_of_forall₂ (h : List.Forall₂ R as bs) {f : α → Option γ} {g : β → Option γ}
    (same : ∀ a b, R a b → f a = g b) : as.filterMap f = bs.filterMap g := by
  induction h with
  | nil => rfl
  | cons first _ ih => rw [List.filterMap_cons, List.filterMap_cons, same _ _ first, ih]

theorem exists_of_mem_forall₂ (h : List.Forall₂ R as bs) {a : α} (mem : a ∈ as) :
    ∃ b ∈ bs, R a b := by
  induction h with
  | nil => cases mem
  | @cons _ b _ bs first _ ih =>
    rcases List.mem_cons.1 mem with rfl | mem
    · exact ⟨b, List.mem_cons_self, first⟩
    · obtain ⟨c, hc, r⟩ := ih mem
      exact ⟨c, List.mem_cons_of_mem _ hc, r⟩

theorem forall₂_zipIdx (h : List.Forall₂ R as bs) (k : Nat) :
    List.Forall₂ (fun a b => R a.1 b.1 ∧ a.2 = b.2) (as.zipIdx k) (bs.zipIdx k) := by
  induction h generalizing k with
  | nil => exact .nil
  | cons first _ ih => exact .cons ⟨first, rfl⟩ (ih (k + 1))

end Related

namespace OrderedMap

variable {κ α β γ : Type} {R : α → β → Prop} {m : OrderedMap κ α} {n : OrderedMap κ β}

def Related (R : α → β → Prop) (m : OrderedMap κ α) (n : OrderedMap κ β) : Prop :=
  List.Forall₂ (fun e f => e.1 = f.1 ∧ R e.2 f.2) m.entries n.entries

theorem Related.keys_eq (h : Related R m n) : m.keys = n.keys :=
  map_eq_of_forall₂ h fun _ _ r => r.1

theorem Related.values (h : Related R m n) : List.Forall₂ R m.values n.values :=
  List.rel_map (fun {_ _} r => r.2) h

theorem Related.mapValues_eq (h : Related R m n) {f : κ → α → γ} {g : κ → β → γ}
    (same : ∀ k a b, R a b → f k a = g k b) : m.mapValues f = n.mapValues g := by
  refine ext (map_eq_of_forall₂ h ?_)
  rintro ⟨k, a⟩ ⟨_, b⟩ ⟨rfl, r⟩
  rw [same k a b r]

theorem Related.mapValues {α' β' : Type} {R' : α' → β' → Prop} (h : Related R m n)
    {f : κ → α → α'} {g : κ → β → β'} (keeps : ∀ k a b, R a b → R' (f k a) (g k b)) :
    Related R' (m.mapValues f) (n.mapValues g) := by
  refine List.rel_map ?_ h
  rintro ⟨k, a⟩ ⟨_, b⟩ ⟨rfl, r⟩
  exact ⟨rfl, keeps k a b r⟩

variable [DecidableEq κ]

theorem Related.get? (h : Related R m n) (k : κ) : Option.Rel R (m.get? k) (n.get? k) := by
  rw [OrderedMap.get?, OrderedMap.get?]
  rw [Related] at h
  generalize m.entries = ms, n.entries = ns at h ⊢
  induction h with
  | nil => exact .none
  | @cons e f _ _ first _ ih =>
    obtain ⟨k', a⟩ := e
    obtain ⟨k'', b⟩ := f
    obtain ⟨same, r⟩ := first
    obtain rfl : k' = k'' := same
    rw [List.lookup_cons, List.lookup_cons]
    split
    · exact .some r
    · exact ih

/-- A key is in neither of two related maps, or in both with related values. -/
theorem Related.get?_cases (h : Related R m n) (k : κ) : (m.get? k = none ∧ n.get? k = none)
    ∨ ∃ a b, m.get? k = some a ∧ n.get? k = some b ∧ R a b := by
  have related := h.get? k
  generalize m.get? k = found, n.get? k = found' at related ⊢
  cases related with
  | none => exact .inl ⟨rfl, rfl⟩
  | some r => exact .inr ⟨_, _, rfl, rfl, r⟩

theorem Related.contains_eq (h : Related R m n) : m.contains = n.contains := by
  funext k
  rw [OrderedMap.contains, OrderedMap.contains, h.keys_eq]

theorem Related.getD (h : Related R m n) (k : κ) {a : α} {b : β} (r : R a b) :
    R (m.getD k a) (n.getD k b) := by
  rw [OrderedMap.getD, OrderedMap.getD]
  obtain ⟨found, found'⟩ | ⟨a', b', found, found', same⟩ := h.get?_cases k
  · rw [found, found']
    exact r
  · rw [found, found']
    exact same

theorem Related.insert (h : Related R m n) (k : κ) {a : α} {b : β} (r : R a b) :
    Related R (m.insert k a) (n.insert k b) := by
  by_cases known : k ∈ m.keys
  · rw [OrderedMap.insert, OrderedMap.insert, dif_pos known, dif_pos (h.keys_eq ▸ known)]
    have entries : List.Forall₂ (fun e f => e.1 = f.1 ∧ R e.2 f.2) m.entries n.entries := h
    refine List.rel_map ?_ entries
    rintro ⟨j, c⟩ ⟨_, d⟩ ⟨rfl, old⟩
    dsimp only
    split
    · exact ⟨rfl, r⟩
    · exact ⟨rfl, old⟩
  · rw [OrderedMap.insert, OrderedMap.insert, dif_neg known, dif_neg (h.keys_eq ▸ known)]
    exact List.rel_append h (.cons ⟨rfl, r⟩ .nil)

theorem Related.insertIfNew (h : Related R m n) (k : κ) {a : α} {b : β} (r : R a b) :
    Related R (m.insertIfNew k a) (n.insertIfNew k b) := by
  by_cases known : k ∈ m.keys
  · rwa [OrderedMap.insertIfNew, OrderedMap.insertIfNew, if_pos (contains_iff.2 known),
      if_pos (contains_iff.2 (h.keys_eq ▸ known))]
  · rw [Related, entries_insertIfNew_of_new known, entries_insertIfNew_of_new (h.keys_eq ▸ known)]
    exact List.rel_append h (.cons ⟨rfl, r⟩ .nil)

end OrderedMap

end Productions
