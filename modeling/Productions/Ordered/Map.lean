/-! An ordered map is a list of entries with distinct keys. A new key goes to the end; inserting a
known key replaces its value and leaves its place. -/
namespace Productions

structure OrderedMap (κ α : Type) where
  entries : List (κ × α)
  nodup : (entries.map Prod.fst).Nodup
  deriving DecidableEq

namespace OrderedMap

variable {κ α β : Type}

def empty : OrderedMap κ α := ⟨[], List.nodup_nil⟩

instance : EmptyCollection (OrderedMap κ α) := ⟨empty⟩
instance : Inhabited (OrderedMap κ α) := ⟨empty⟩

@[ext] theorem ext {m n : OrderedMap κ α} (h : m.entries = n.entries) : m = n := by
  cases m; cases n; cases h; rfl

def keys (m : OrderedMap κ α) : List κ := m.entries.map Prod.fst
def values (m : OrderedMap κ α) : List α := m.entries.map Prod.snd
def size (m : OrderedMap κ α) : Nat := m.entries.length
def isEmpty (m : OrderedMap κ α) : Bool := m.entries.isEmpty

theorem nodup_keys (m : OrderedMap κ α) : m.keys.Nodup := m.nodup

def mapValues (f : κ → α → β) (m : OrderedMap κ α) : OrderedMap κ β :=
  ⟨m.entries.map fun e => (e.1, f e.1 e.2), by
    have : (m.entries.map fun e => (e.1, f e.1 e.2)).map Prod.fst = m.entries.map Prod.fst := by
      simp [List.map_map, Function.comp_def]
    rw [this]; exact m.nodup⟩

@[simp] theorem keys_mapValues (f : κ → α → β) (m : OrderedMap κ α) :
    (m.mapValues f).keys = m.keys := by
  simp [keys, mapValues, List.map_map, Function.comp_def]

variable [DecidableEq κ]

def contains (m : OrderedMap κ α) (k : κ) : Bool := decide (k ∈ m.keys)

@[simp] theorem contains_iff {m : OrderedMap κ α} {k : κ} : m.contains k = true ↔ k ∈ m.keys := by
  simp [contains]

def get? (m : OrderedMap κ α) (k : κ) : Option α := m.entries.lookup k

theorem get?_eq_none_iff {m : OrderedMap κ α} {k : κ} : m.get? k = none ↔ k ∉ m.keys := by
  simp only [get?, keys]
  induction m.entries with
  | nil => simp
  | cons e es ih =>
    obtain ⟨x, a⟩ := e
    simp only [List.lookup_cons, List.map_cons, List.mem_cons, not_or]
    by_cases h : k = x
    · simp [h]
    · have : (k == x) = false := by simp [h]
      simp [this, ih, h]

theorem get?_isSome_iff {m : OrderedMap κ α} {k : κ} : (m.get? k).isSome ↔ k ∈ m.keys := by
  rw [Option.isSome_iff_ne_none, ne_eq, get?_eq_none_iff, Classical.not_not]

/-- A look-up finds exactly the entries. -/
theorem get?_eq_some_iff {m : OrderedMap κ α} {k : κ} {a : α} :
    m.get? k = some a ↔ (k, a) ∈ m.entries := by
  obtain ⟨entries, nodup⟩ := m
  simp only [get?]
  induction entries with
  | nil => simp
  | cons e es ih =>
    obtain ⟨x, b⟩ := e
    simp only [List.map_cons, List.nodup_cons] at nodup
    by_cases h : k = x
    · subst h
      have absent : (k, a) ∉ es := fun mem => nodup.1 (List.mem_map.2 ⟨_, mem, rfl⟩)
      simp [absent, eq_comm]
    · have : (k == x) = false := by simp [h]
      simp [List.lookup_cons, this, ih nodup.2, h]

@[simp] theorem get?_empty (k : κ) : (∅ : OrderedMap κ α).get? k = none := rfl

theorem get?_mapValues (f : κ → α → β) (m : OrderedMap κ α) (k : κ) :
    (m.mapValues f).get? k = (m.get? k).map (f k) := by
  simp only [get?, mapValues]
  induction m.entries with
  | nil => rfl
  | cons e es ih =>
    obtain ⟨y, b⟩ := e
    by_cases h : k = y
    · simp [h]
    · have : (k == y) = false := by simp [h]
      simp [List.lookup_cons, this, ih]

def getD (m : OrderedMap κ α) (k : κ) (fallback : α) : α := (m.get? k).getD fallback

/-- Writes a value under a key; a key already present keeps its place. -/
def insert (m : OrderedMap κ α) (k : κ) (a : α) : OrderedMap κ α :=
  if h : k ∈ m.keys then
    ⟨m.entries.map fun e => if e.1 = k then (k, a) else e, by
      have : (m.entries.map fun e => if e.1 = k then (k, a) else e).map Prod.fst
          = m.entries.map Prod.fst := by
        rw [List.map_map]
        apply List.map_congr_left
        intro e _
        simp only [Function.comp]
        split <;> simp_all
      rw [this]; exact m.nodup⟩
  else
    ⟨m.entries ++ [(k, a)], by
      rw [List.map_append]
      refine List.nodup_append.2 ⟨m.nodup, by simp, ?_⟩
      intro x hx y hy hxy
      simp only [List.map_cons, List.map_nil, List.mem_singleton] at hy
      exact h (hy ▸ hxy ▸ hx)⟩

theorem keys_insert (m : OrderedMap κ α) (k : κ) (a : α) :
    (m.insert k a).keys = if k ∈ m.keys then m.keys else m.keys ++ [k] := by
  unfold insert
  split <;> rename_i h
  · simp only [keys, List.map_map]
    apply List.map_congr_left
    intro e _
    simp only [Function.comp]
    split <;> simp_all
  · simp [keys]

/-- Writing a value over the entries of a key. -/
theorem lookup_overwrite (es : List (κ × α)) (k x : κ) (a : α) :
    (es.map fun e => if e.1 = k then (k, a) else e).lookup x
      = if x = k then (es.lookup x).map fun _ => a else es.lookup x := by
  induction es with
  | nil => simp
  | cons e es ih =>
    obtain ⟨y, b⟩ := e
    rw [List.map_cons]
    by_cases hy : y = k <;> by_cases hx : x = y <;> simp_all [List.lookup_cons]
    · have : (x == k) = false := by simp [hx]
      simp [this]
    · have : (x == y) = false := by simp [hx]
      have : (k == y) = false := by simp [Ne.symm hy]
      simp [*]

theorem get?_insert (m : OrderedMap κ α) (k x : κ) (a : α) :
    (m.insert k a).get? x = if x = k then some a else m.get? x := by
  unfold insert
  split <;> rename_i h
  · simp only [get?]
    rw [lookup_overwrite]
    by_cases hx : x = k
    · obtain ⟨b, hb⟩ := Option.isSome_iff_exists.1 (get?_isSome_iff.2 h)
      rw [get?] at hb
      simp [hx, hb]
    · simp [hx]
  · simp only [get?, List.lookup_append]
    by_cases hx : x = k
    · have : m.entries.lookup x = none := get?_eq_none_iff.2 (hx ▸ h)
      simp [hx, hx ▸ this]
    · have : (x == k) = false := by simp [hx]
      simp [List.lookup_cons, this, hx]

theorem mem_keys_insert {m : OrderedMap κ α} {k x : κ} {a : α} :
    x ∈ (m.insert k a).keys ↔ x ∈ m.keys ∨ x = k := by
  rw [← get?_isSome_iff, get?_insert, ← get?_isSome_iff]
  split <;> simp_all

def insertIfNew (m : OrderedMap κ α) (k : κ) (a : α) : OrderedMap κ α :=
  if m.contains k then m else m.insert k a

theorem get?_insertIfNew (m : OrderedMap κ α) (k x : κ) (a : α) :
    (m.insertIfNew k a).get? x = (m.get? x).or (if x = k then some a else none) := by
  unfold insertIfNew
  split <;> rename_i h
  · by_cases hx : x = k
    · obtain ⟨b, hb⟩ := Option.isSome_iff_exists.1 (get?_isSome_iff.2 (contains_iff.1 h))
      simp [hx, hb]
    · simp [hx]
  · rw [contains_iff] at h
    rw [get?_insert]
    by_cases hx : x = k
    · simp [hx, get?_eq_none_iff.2 h]
    · simp [hx]

theorem entries_insertIfNew_of_new {m : OrderedMap κ α} {k : κ} {a : α} (new : k ∉ m.keys) :
    (m.insertIfNew k a).entries = m.entries ++ [(k, a)] := by
  rw [insertIfNew, if_neg (by rwa [contains_iff]), insert, dif_neg new]

/-- New keys are entered in their order. -/
theorem entries_foldl_insertIfNew {β : Type} {key : β → κ} {value : β → α} {bs : List β}
    {m : OrderedMap κ α} (nodup : (m.keys ++ bs.map key).Nodup) :
    (bs.foldl (fun m b => m.insertIfNew (key b) (value b)) m).entries
      = m.entries ++ bs.map fun b => (key b, value b) := by
  induction bs generalizing m with
  | nil => simp
  | cons b bs ih =>
    have new : key b ∉ m.keys := fun known =>
      (List.nodup_append.1 nodup).2.2 _ known _ (by simp) rfl
    have grown := entries_insertIfNew_of_new (a := value b) new
    have keys : (m.insertIfNew (key b) (value b)).keys = m.keys ++ [key b] := by
      rw [OrderedMap.keys, grown, List.map_append]
      rfl
    rw [List.foldl_cons, ih (by simpa [keys] using nodup), grown]
    simp

def ofList (es : List (κ × α)) : OrderedMap κ α :=
  es.foldl (fun m e => m.insert e.1 e.2) ∅

theorem get?_foldl_insert (es : List (κ × α)) (m : OrderedMap κ α) (x : κ)
    (nodup : (es.map Prod.fst).Nodup) :
    (es.foldl (fun m e => m.insert e.1 e.2) m).get? x = (es.lookup x).or (m.get? x) := by
  induction es generalizing m with
  | nil => simp
  | cons e es ih =>
    obtain ⟨y, b⟩ := e
    simp only [List.map_cons, List.nodup_cons] at nodup
    rw [List.foldl_cons, ih _ nodup.2, get?_insert]
    by_cases hx : x = y
    · have absent : es.lookup x = none := by
        rw [List.lookup_eq_none_iff]
        intro p hp
        have : x ≠ p.1 := fun e => nodup.1 (List.mem_map.2 ⟨p, hp, by simp [← e, hx]⟩)
        simp [this]
      simp [hx, hx ▸ absent]
    · have : (x == y) = false := by simp [hx]
      simp [List.lookup_cons, this, hx]

/-- A list of entries with distinct keys, looked up as it stands. -/
theorem get?_ofList {es : List (κ × α)} (nodup : (es.map Prod.fst).Nodup) (x : κ) :
    (ofList es).get? x = es.lookup x := by
  simp [ofList, get?_foldl_insert es ∅ x nodup]

/-- Enters a value under a new key, if there is a key at all. -/
def note (m : OrderedMap κ α) : Option κ → α → OrderedMap κ α
  | none, _ => m
  | some k, a => m.insertIfNew k a

/-- Where each key stands first in a list of which not all elements need have one. -/
def firstPlaces (key? : β → Option κ) (bs : List β) : OrderedMap κ Nat :=
  bs.zipIdx.foldl (fun m b => m.note (key? b.1) b.2) ∅

theorem firstPlaces_concat (key? : β → Option κ) (bs : List β) (b : β) :
    firstPlaces key? (bs ++ [b]) = (firstPlaces key? bs).note (key? b) bs.length := by
  simp [firstPlaces, List.zipIdx_append]

theorem get?_foldl_note {key? : β → Option κ} (bs : List β) (n : Nat) (m : OrderedMap κ Nat)
    (k : κ) : ((bs.zipIdx n).foldl (fun m b => m.note (key? b.1) b.2) m).get? k
      = (m.get? k).or ((bs.findIdx? fun b => decide (key? b = some k)).map (· + n)) := by
  induction bs generalizing n m with
  | nil => simp
  | cons b bs ih =>
    rw [List.zipIdx_cons, List.foldl_cons, ih, List.findIdx?_cons]
    cases own : key? b with
    | none => simp [note, Nat.add_assoc, Nat.add_comm 1 n, Function.comp_def]
    | some k' =>
      rw [note, get?_insertIfNew, Option.or_assoc]
      by_cases same : k = k'
      · simp [same]
      · have other : ¬ (some k' = some k) := fun h => same (Option.some.inj h).symm
        simp [same, other, Nat.add_assoc, Nat.add_comm 1 n, Function.comp_def]

/-- A key is looked up at its first place. -/
theorem get?_firstPlaces (key? : β → Option κ) (bs : List β) (k : κ) :
    (firstPlaces key? bs).get? k = bs.findIdx? fun b => decide (key? b = some k) := by
  simp [firstPlaces, get?_foldl_note]

end OrderedMap

end Productions
