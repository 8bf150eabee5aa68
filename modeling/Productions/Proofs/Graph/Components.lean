import Mathlib.Data.List.Nodup
import Mathlib.Logic.Relation
import Productions.Graph.Basic
import Productions.Proofs.Reachability

/-! What Tarjan's algorithm does. While it runs, each node on the stack leads to all newer ones, and
back to an open one, which is a node whose edges are still being followed. Between the two a low
link decides: if no edge leads from a node and those above it to the stack below, they are a
component; otherwise the node leads to an older one and stays. -/
namespace Productions.Graph

open Relation

variable {α : Type} [DecidableEq α] {g : Graph α} {a b : α}

namespace Descent

variable {s : Descent α}

theorem number_enter : (s.enter a).number b = if b = a then s.next else s.number b := by
  rw [number, enter, OrderedMap.getD, OrderedMap.get?_insert]
  split <;> rfl

theorem link_enter : (s.enter a).link b = if b = a then s.next else s.link b := by
  rw [link, enter, OrderedMap.getD, OrderedMap.get?_insert]
  split <;> rfl

theorem exists_lower (s : Descent α) (a : α) (n : Nat) :
    ∃ low, low.keys = s.low.keys ∧ s.lower a n = { s with low := low } := by
  rw [lower]
  cases found : s.low.get? a with
  | none => exact ⟨s.low, rfl, rfl⟩
  | some m =>
    have known : a ∈ s.low.keys := OrderedMap.get?_isSome_iff.1 (Option.isSome_of_eq_some found)
    exact ⟨_, by rw [OrderedMap.keys_insert, if_pos known], rfl⟩

theorem link_lower {n : Nat} (known : a ∈ s.low.keys) :
    (s.lower a n).link b = if b = a then min (s.link a) n else s.link b := by
  obtain ⟨m, found⟩ := Option.isSome_iff_exists.1 (OrderedMap.get?_isSome_iff.2 known)
  have own : s.link a = m := by
    rw [link, OrderedMap.getD, found]
    rfl
  rw [own, lower, found, link, OrderedMap.getD, OrderedMap.get?_insert]
  split <;> rfl

theorem close_of_eq {front rest : List α} (split : s.stack = front ++ a :: rest) (new : a ∉ front)
    (first : s.link a = s.number a) : s.close a =
      { s with stack := rest, components := s.components ++ [a :: front.reverse] } := by
  have apart : ∀ b ∈ front, decide (b ≠ a) = true := fun b hb =>
    decide_eq_true fun same => new (same ▸ hb)
  rw [close, if_pos first, split, since_append new, List.dropWhile_append_of_pos apart]
  simp

theorem close_of_lt (later : s.link a < s.number a) : s.close a = s := if_neg (Nat.ne_of_lt later)

/-- What stays as it is while the search goes on above a node. -/
structure Keeps (a : α) (s t : Descent α) : Prop where
  entered : s.entered ⊆ t.entered
  number : ∀ b ∈ s.entered, t.number b = s.number b
  link : ∀ b ∈ s.entered, b ≠ a → t.link b = s.link b

namespace Keeps

variable {t u : Descent α}

theorem refl (a : α) (s : Descent α) : Keeps a s s :=
  ⟨List.Subset.refl _, fun _ _ => rfl, fun _ _ _ => rfl⟩

theorem trans (h : Keeps a s t) (h' : Keeps a t u) : Keeps a s u where
  entered _ hb := h'.entered (h.entered hb)
  number b hb := (h'.number b (h.entered hb)).trans (h.number b hb)
  link b hb other := (h'.link b (h.entered hb) other).trans (h.link b hb other)

/-- A new node has no link that could have changed. -/
theorem of_new (h : Keeps b s t) (new : b ∉ s.entered) (a : α) : Keeps a s t :=
  ⟨h.entered, h.number, fun c hc _ => h.link c hc fun same => new (same ▸ hc)⟩

theorem enter (new : a ∉ s.entered) : Keeps a s (s.enter a) where
  entered _ hb := by
    rw [entered_enter new]
    exact List.mem_append_left _ hb
  number b hb := by
    have other : b ≠ a := fun same => new (same ▸ hb)
    rw [number_enter, if_neg other]
  link b _ other := by rw [link_enter, if_neg other]

theorem lower (known : a ∈ s.low.keys) (n : Nat) : Keeps a s (s.lower a n) where
  entered := by rw [entered_lower]; exact List.Subset.refl _
  number b _ := by
    obtain ⟨low, -, same⟩ := exists_lower s a n
    rw [same]
    rfl
  link b _ other := by rw [link_lower known, if_neg other]

theorem close (a : α) (s : Descent α) : Keeps a s (s.close a) := by
  rw [Descent.close]
  split
  · exact ⟨List.Subset.refl _, fun _ _ => rfl, fun _ _ _ => rfl⟩
  · exact refl a s

end Keeps

end Descent

open Descent

def Mutual (g : Graph α) (a b : α) : Prop := ReflTransGen g.Edge a b ∧ ReflTransGen g.Edge b a

/-- Components of which each leads to itself and to those before it only; `later` holds of what
stands before the list. -/
inductive Stacked (g : Graph α) : (later : α → Prop) → List (List α) → Prop where
  | nil {later} : Stacked g later []
  | cons {later c found} (closed : ∀ a ∈ c, ∀ b, g.Edge a b → b ∈ c ∨ later b)
      (below : Stacked g (fun b => b ∈ c ∨ later b) found) : Stacked g later (c :: found)

namespace Stacked

variable {later : α → Prop} {found : List (List α)}

theorem closed (h : g.Stacked later found) (ha : a ∈ found.flatten) (edge : g.Edge a b) :
    b ∈ found.flatten ∨ later b := by
  induction h with
  | nil => cases ha
  | cons own _ ih =>
    rw [List.flatten_cons, List.mem_append] at ha ⊢
    rcases ha with ha | ha
    · exact (own a ha b edge).imp_left .inl
    · rcases ih ha with hb | hb | hb
      · exact .inl (.inr hb)
      · exact .inl (.inl hb)
      · exact .inr hb

theorem append {c : List α} (h : g.Stacked later found)
    (own : ∀ a ∈ c, ∀ b, g.Edge a b → b ∈ c ∨ b ∈ found.flatten ∨ later b) :
    g.Stacked later (found ++ [c]) := by
  induction h with
  | nil =>
    exact .cons (fun a ha b edge => (own a ha b edge).imp_right fun hb => by simpa using hb) .nil
  | cons first _ ih =>
    refine .cons first (ih fun a ha b edge => (own a ha b edge).imp_right fun hb => ?_)
    rw [List.flatten_cons, List.mem_append] at hb
    tauto

end Stacked

structure Emitted (g : Graph α) (found : List (List α)) : Prop where
  nonempty : ∀ c ∈ found, c ≠ []
  within : ∀ c ∈ found, ∀ a ∈ c, ∀ b ∈ c, g.Mutual a b
  nodup : found.flatten.Nodup
  stacked : g.Stacked (fun _ => False) found

theorem Emitted.closed {found : List (List α)} (h : g.Emitted found) (ha : a ∈ found.flatten)
    (path : ReflTransGen g.Edge a b) : b ∈ found.flatten := by
  induction path with
  | refl => exact ha
  | tail _ edge ih => exact (h.stacked.closed ih edge).resolve_right id

theorem Emitted.append {found : List (List α)} {c : List α} (h : g.Emitted found)
    (nonempty : c ≠ []) (within : ∀ a ∈ c, ∀ b ∈ c, g.Mutual a b) (nodup : c.Nodup)
    (apart : found.flatten.Disjoint c)
    (own : ∀ a ∈ c, ∀ b, g.Edge a b → b ∈ c ∨ b ∈ found.flatten) : g.Emitted (found ++ [c]) where
  nonempty d hd := by
    rcases List.mem_append.1 hd with hd | hd
    · exact h.nonempty d hd
    · rwa [List.mem_singleton.1 hd]
  within d hd := by
    rcases List.mem_append.1 hd with hd | hd
    · exact h.within d hd
    · rwa [List.mem_singleton.1 hd]
  nodup := by
    rw [List.flatten_append, List.flatten_singleton]
    exact h.nodup.append nodup apart
  stacked := h.stacked.append fun a ha b edge => (own a ha b edge).imp_right .inl

/-- Of two nodes on the stack, the newer has the greater number and is reached from the other. -/
def Deeper (g : Graph α) (s : Descent α) (newer older : α) : Prop :=
  s.number older < s.number newer ∧ ReflTransGen g.Edge older newer

/-- What holds at every moment. The open nodes are those in `path`; all edges of other nodes that
have been entered have been followed. -/
structure Sound (g : Graph α) (path : List α) (s : Descent α) : Prop where
  known : ∀ a ∈ s.entered, a ∈ g.keys
  linked : s.low.keys = s.entered
  numbered : ∀ a ∈ s.entered, s.number a < s.next
  placed : ∀ a, a ∈ s.entered ↔ a ∈ s.stack ∨ a ∈ s.components.flatten
  apart : ∀ a ∈ s.stack, a ∉ s.components.flatten
  line : s.stack.Pairwise (g.Deeper s)
  followed : ∀ a ∈ s.entered, a ∉ path → ∀ b, g.Edge a b → b ∈ s.entered
  back : ∀ a ∈ s.stack, ∃ p ∈ path, s.number p ≤ s.number a ∧ ReflTransGen g.Edge a p
  emitted : g.Emitted s.components

/-- The stack holds `front` above a node and `rest` below it. Edges from the node to `done`, and all
edges from `front`, lead to no number in `rest` that is less than `n`. -/
structure Bounded (g : Graph α) (s : Descent α) (a : α) (n : Nat) (front rest done : List α) :
    Prop where
  split : s.stack = front ++ a :: rest
  own : n ≤ s.number a
  followed : ∀ b ∈ done, g.Edge a b → b ∈ s.entered ∧ (b ∈ rest → n ≤ s.number b)
  above : ∀ c ∈ front, ∀ b ∈ rest, g.Edge c b → n ≤ s.number b

def Attained (g : Graph α) (s : Descent α) (a : α) (n : Nat) : Prop :=
  ∃ b ∈ s.stack, ReflTransGen g.Edge a b ∧ s.number b = n

/-- The search is at `a` and has followed the edges from there to `done`. All other open nodes lie
below, and the low link says how far down the edges from `a` and from above it lead. -/
structure Following (g : Graph α) (path rest : List α) (a : α) (done : List α) (s : Descent α) :
    Prop where
  sound : g.Sound (a :: path) s
  below : path ⊆ rest
  bounded : ∃ front, g.Bounded s a (s.link a) front rest done
  attained : g.Attained s a (s.link a)

variable {s t : Descent α} {path front rest done : List α} {n : Nat}

namespace Sound

theorem entered_of_stack (h : g.Sound path s) (ha : a ∈ s.stack) : a ∈ s.entered :=
  (h.placed a).2 (.inl ha)

theorem mem_low (h : g.Sound path s) (ha : a ∈ s.entered) : a ∈ s.low.keys := by
  rwa [h.linked]

theorem lower (h : g.Sound path s) (a : α) (n : Nat) : g.Sound path (s.lower a n) := by
  obtain ⟨low, keys, same⟩ := exists_lower s a n
  rw [same]
  exact ⟨h.known, keys.trans h.linked, h.numbered, h.placed, h.apart, h.line, h.followed, h.back,
    h.emitted⟩

theorem enter (h : g.Sound path s) (opened : path ⊆ s.stack) (inside : b ∈ g.keys)
    (new : b ∉ s.entered) (reached : ∀ a ∈ s.stack, ReflTransGen g.Edge a b) :
    g.Sound (b :: path) (s.enter b) := by
  have keeps := Keeps.enter new
  have entered (a : α) : a ∈ (s.enter b).entered ↔ a ∈ s.entered ∨ a = b := by
    rw [entered_enter new, List.mem_append, List.mem_singleton]
  have number (a : α) (ha : a ∈ s.stack) : (s.enter b).number a = s.number a :=
    keeps.number a (h.entered_of_stack ha)
  have own : (s.enter b).number b = s.next := by rw [number_enter, if_pos rfl]
  constructor
  case known =>
    intro a ha
    rcases (entered a).1 ha with ha | rfl
    · exact h.known a ha
    · exact inside
  case linked =>
    have unlinked : b ∉ s.low.keys := by rwa [h.linked]
    rw [entered_enter new, Descent.enter, OrderedMap.keys_insert, if_neg unlinked, h.linked]
  case numbered =>
    intro a ha
    show _ < s.next + 1
    rcases (entered a).1 ha with ha | rfl
    · rw [keeps.number a ha]
      exact Nat.lt_succ_of_lt (h.numbered a ha)
    · rw [own]
      exact Nat.lt_succ_self _
  case placed =>
    intro a
    show _ ↔ a ∈ b :: s.stack ∨ a ∈ s.components.flatten
    rw [entered, h.placed, List.mem_cons]
    tauto
  case apart =>
    intro a ha
    show a ∉ s.components.flatten
    rcases List.mem_cons.1 ha with rfl | ha
    · exact fun old => new ((h.placed a).2 (.inr old))
    · exact h.apart a ha
  case line =>
    refine List.pairwise_cons.2 ⟨fun a ha => ⟨?_, reached a ha⟩, ?_⟩
    · rw [own, number a ha]
      exact h.numbered a (h.entered_of_stack ha)
    · refine List.Pairwise.imp_of_mem (fun {c d} hc hd deeper => ?_) h.line
      rw [Deeper, number c hc, number d hd]
      exact deeper
  case followed =>
    intro a ha notOpen c edge
    rw [List.mem_cons, not_or] at notOpen
    have old := ((entered a).1 ha).resolve_right notOpen.1
    exact keeps.entered (h.followed a old notOpen.2 c edge)
  case back =>
    intro a ha
    rcases List.mem_cons.1 ha with rfl | ha
    · exact ⟨a, by simp, Nat.le_refl _, .refl⟩
    · obtain ⟨p, hp, le, way⟩ := h.back a ha
      rw [← number p (opened hp), ← number a ha] at le
      exact ⟨p, List.mem_cons_of_mem _ hp, le, way⟩
  case emitted => exact h.emitted

end Sound

theorem Attained.min (h : g.Attained s a n) {m : Nat} (seen : n ≤ m ∨ g.Attained s a m) :
    g.Attained s a (min n m) := by
  by_cases le : n ≤ m
  · rwa [Nat.min_eq_left le]
  · rw [Nat.min_eq_right (Nat.le_of_not_le le)]
    exact seen.resolve_left le

/-- A node that leads to an older one on the stack leads back to an open node below it. -/
theorem Sound.back_of_lt (h : g.Sound (a :: path) s) (attained : g.Attained s a n)
    (later : n < s.number a) {c : α} (hc : c ∈ s.stack) :
    ∃ p ∈ path, s.number p ≤ s.number c ∧ ReflTransGen g.Edge c p := by
  obtain ⟨p, hp, le, way⟩ := h.back c hc
  rcases List.mem_cons.1 hp with rfl | hp
  · obtain ⟨d, hd, on, low⟩ := attained
    obtain ⟨q, hq, le', way'⟩ := h.back d hd
    rcases List.mem_cons.1 hq with rfl | hq
    · omega
    · exact ⟨q, hq, by omega, way.trans (on.trans way')⟩
  · exact ⟨p, hp, le, way⟩

namespace Bounded

theorem mono (h : g.Bounded s a n front rest done) {m : Nat} (le : m ≤ n) :
    g.Bounded s a m front rest done where
  split := h.split
  own := Nat.le_trans le h.own
  followed b hb edge :=
    (h.followed b hb edge).imp_right fun low below => Nat.le_trans le (low below)
  above c hc b hb edge := Nat.le_trans le (h.above c hc b hb edge)

theorem follow (h : g.Bounded s a n front rest done)
    (hb : g.Edge a b → b ∈ s.entered ∧ (b ∈ rest → n ≤ s.number b)) :
    g.Bounded s a n front rest (done ++ [b]) where
  split := h.split
  own := h.own
  followed c hc edge := by
    rcases List.mem_append.1 hc with hc | hc
    · exact h.followed c hc edge
    · obtain rfl := List.mem_singleton.1 hc
      exact hb edge
  above := h.above

/-- The stack has grown by nodes that do not lead further down. -/
theorem grow (h : g.Bounded s a n front rest done) {more : List α}
    (stack : t.stack = more ++ s.stack) (number : ∀ c ∈ s.stack, t.number c = s.number c)
    (entered : s.entered ⊆ t.entered)
    (low : ∀ c ∈ more, ∀ b ∈ rest, g.Edge c b → n ≤ t.number b) :
    g.Bounded t a n (more ++ front) rest done := by
  have same : ∀ b ∈ rest, t.number b = s.number b := fun b hb => number b (by simp [h.split, hb])
  refine ⟨by rw [stack, h.split, List.append_assoc], ?_, fun b hb edge => ?_,
    fun c hc b hb edge => ?_⟩
  · rw [number a (by simp [h.split])]
    exact h.own
  · obtain ⟨known, le⟩ := h.followed b hb edge
    exact ⟨entered known, fun below => same b below ▸ le below⟩
  · rcases List.mem_append.1 hc with hc | hc
    · exact low c hc b hb edge
    · exact same b hb ▸ h.above c hc b hb edge

theorem deeper_front (h : g.Bounded s a n front rest done) (sound : g.Sound path s) {c : α}
    (hc : c ∈ front) : g.Deeper s c a := by
  have line := sound.line
  rw [h.split] at line
  exact (List.pairwise_append.1 line).2.2 c hc a (by simp)

theorem deeper_rest (h : g.Bounded s a n front rest done) (sound : g.Sound path s) {c : α}
    (hc : c ∈ rest) : g.Deeper s a c := by
  have line := sound.line
  rw [h.split] at line
  exact (List.pairwise_cons.1 (List.pairwise_append.1 line).2.1).1 c hc

/-- The part of the stack from a node on has nothing in common with the part below. -/
theorem not_mem_rest (h : g.Bounded s a n front rest done) (sound : g.Sound path s) {c : α}
    (hc : c ∈ a :: front) : c ∉ rest := by
  intro low
  have below := (h.deeper_rest sound low).1
  rcases List.mem_cons.1 hc with rfl | hc
  · omega
  · have above := (h.deeper_front sound hc).1
    omega

theorem mem_stack_iff (h : g.Bounded s a n front rest done) {c : α} :
    c ∈ s.stack ↔ c ∈ a :: front ∨ c ∈ rest := by
  rw [h.split]
  simp only [List.mem_append, List.mem_cons]
  tauto

theorem along (h : g.Bounded s a n front rest done) (sound : g.Sound path s) {c : α}
    (hc : c ∈ a :: front) : ReflTransGen g.Edge a c := by
  rcases List.mem_cons.1 hc with rfl | hc
  · exact .refl
  · exact (h.deeper_front sound hc).2

section Closing

variable (h : g.Bounded s a n front rest (g.successors a)) (sound : g.Sound (a :: path) s)
  (below : path ⊆ rest)

include h sound below

/-- Edges from a node and from those above it have been followed. -/
theorem leads {c : α} (hc : c ∈ a :: front) (edge : g.Edge c b) :
    b ∈ s.entered ∧ (b ∈ rest → n ≤ s.number b) := by
  rcases List.mem_cons.1 hc with rfl | front
  · exact h.followed b edge.1 edge
  · have notOpen : c ∉ a :: path := fun mem => by
      rcases List.mem_cons.1 mem with rfl | mem
      · exact Nat.lt_irrefl _ (h.deeper_front sound front).1
      · exact h.not_mem_rest sound hc (below mem)
    have entered := sound.entered_of_stack (h.mem_stack_iff.2 (.inl hc))
    exact ⟨sound.followed c entered notOpen b edge, fun hb => h.above c front b hb edge⟩

theorem followed_closed {c : α} (hc : c ∈ s.entered) (notOpen : c ∉ path) (edge : g.Edge c b) :
    b ∈ s.entered := by
  by_cases same : c = a
  · exact (h.leads sound below (by simp [same]) edge).1
  · exact sound.followed c hc (by simp [same, notOpen]) b edge

theorem stay (attained : g.Attained s a n) (later : n < s.number a) : g.Sound path s where
  known := sound.known
  linked := sound.linked
  numbered := sound.numbered
  placed := sound.placed
  apart := sound.apart
  line := sound.line
  followed _ hc notOpen _ edge := h.followed_closed sound below hc notOpen edge
  back _ hc := sound.back_of_lt attained later hc
  emitted := sound.emitted

/-- If the low link of a node is its own number, no way leads from there to the stack below. -/
theorem region (first : n = s.number a) {c : α} (hc : c ∈ a :: front)
    (way : ReflTransGen g.Edge c b) : b ∈ a :: front ∨ b ∈ s.components.flatten := by
  induction way with
  | refl => exact .inl hc
  | @tail d e _ edge ih =>
    rcases ih with hd | hd
    · obtain ⟨entered, low⟩ := h.leads sound below hd edge
      rcases (sound.placed e).1 entered with he | he
      · refine .inl ((h.mem_stack_iff.1 he).resolve_right fun older => ?_)
        have deeper := (h.deeper_rest sound older).1
        have := low older
        omega
      · exact .inr he
    · exact .inr (sound.emitted.closed hd (.single edge))

theorem back_first (first : n = s.number a) {c : α} (hc : c ∈ a :: front) :
    ReflTransGen g.Edge c a := by
  obtain ⟨p, hp, -, way⟩ := sound.back c (h.mem_stack_iff.2 (.inl hc))
  rcases List.mem_cons.1 hp with rfl | hp
  · exact way
  · rcases h.region sound below first hc way with here | emitted
    · exact absurd (below hp) (h.not_mem_rest sound here)
    · exact absurd emitted (sound.apart p (h.mem_stack_iff.2 (.inr (below hp))))

theorem emitted_append (first : n = s.number a) :
    g.Emitted (s.components ++ [a :: front.reverse]) := by
  have mem (c : α) : c ∈ a :: front.reverse ↔ c ∈ a :: front := by simp
  have nodup : (a :: front.reverse).Nodup := by
    have line := sound.line
    rw [h.split] at line
    refine List.nodup_cons.2 ⟨fun ha => ?_, List.nodup_reverse.2 ?_⟩
    · exact Nat.lt_irrefl _ (h.deeper_front sound (List.mem_reverse.1 ha)).1
    · refine (List.pairwise_append.1 line).1.imp fun {c d} deeper same => ?_
      exact Nat.lt_irrefl _ (same ▸ deeper.1)
  refine sound.emitted.append (List.cons_ne_nil _ _) (fun c hc d hd => ?_) nodup
    (fun c old hc => ?_) fun c hc b edge => ?_
  · rw [mem] at hc hd
    exact ⟨(h.back_first sound below first hc).trans (h.along sound hd),
      (h.back_first sound below first hd).trans (h.along sound hc)⟩
  · exact sound.apart c (h.mem_stack_iff.2 (.inl ((mem c).1 hc))) old
  · rw [mem] at hc ⊢
    exact h.region sound below first hc (.single edge)

theorem pop (first : n = s.number a) : g.Sound path
    { s with stack := rest, components := s.components ++ [a :: front.reverse] } where
  known := sound.known
  linked := sound.linked
  numbered := sound.numbered
  placed c := by
    show c ∈ s.entered ↔ c ∈ rest ∨ c ∈ (s.components ++ [a :: front.reverse]).flatten
    rw [sound.placed, h.mem_stack_iff, List.flatten_append, List.flatten_singleton]
    simp only [List.mem_append, List.mem_cons, List.mem_reverse]
    tauto
  apart c hc := by
    show c ∉ (s.components ++ [a :: front.reverse]).flatten
    rw [List.flatten_append, List.flatten_singleton, List.mem_append, not_or]
    refine ⟨sound.apart c (h.mem_stack_iff.2 (.inr hc)), fun here => ?_⟩
    exact h.not_mem_rest sound (by simpa using here) hc
  line := by
    have line := sound.line
    rw [h.split] at line
    exact (List.pairwise_cons.1 (List.pairwise_append.1 line).2.1).2
  followed _ hc notOpen _ edge := h.followed_closed sound below hc notOpen edge
  back c hc := by
    obtain ⟨p, hp, le, way⟩ := sound.back c (h.mem_stack_iff.2 (.inr hc))
    have older := (h.deeper_rest sound hc).1
    have other : p ≠ a := by
      rintro rfl
      exact Nat.lt_irrefl _ (Nat.lt_of_lt_of_le older le)
    exact ⟨p, (List.mem_cons.1 hp).resolve_left other, le, way⟩
  emitted := h.emitted_append sound below first

end Closing

end Bounded

/-- What has happened when a new node has been entered, followed and closed. What this has left on
the stack leads no further down than the low link of the node, which is the number of a node that
can be reached, or too great to matter because the component is complete. -/
structure Connected (g : Graph α) (path : List α) (s : Descent α) (b : α) (t : Descent α) :
    Prop where
  sound : g.Sound path t
  keeps : Keeps b s t
  entered : b ∈ t.entered
  grown : ∃ more, t.stack = more ++ s.stack
    ∧ ∀ c ∈ more, ∀ d ∈ s.stack, g.Edge c d → t.link b ≤ t.number d
  link : (∀ c ∈ s.stack, t.number c ≤ t.link b) ∨ g.Attained t b (t.link b)

namespace Following

theorem start (sound : g.Sound path s) (below : path ⊆ s.stack) (inside : b ∈ g.keys)
    (new : b ∉ s.entered) (reached : ∀ a ∈ s.stack, ReflTransGen g.Edge a b) :
    g.Following path s.stack b [] (s.enter b) := by
  have own : (s.enter b).number b = (s.enter b).link b := by
    rw [number_enter, if_pos rfl, link_enter, if_pos rfl]
  exact ⟨sound.enter below inside new reached, below,
    ⟨[], rfl, Nat.le_of_eq own.symm, by simp, by simp⟩, ⟨b, List.mem_cons_self, .refl, own⟩⟩

/-- The end of a new node decides on its component. -/
theorem close (h : g.Following path s.stack b (g.successors b) t) (keeps : Keeps b (s.enter b) t)
    (new : b ∉ s.entered) : g.Connected path s b (t.close b) := by
  obtain ⟨sound, below, ⟨front, bounded⟩, attained⟩ := h
  have keeps' : Keeps b s (t.close b) := ((Keeps.enter new).trans keeps).trans (.close b t)
  have entered : b ∈ (t.close b).entered := by
    rw [entered_close]
    exact sound.entered_of_stack (bounded.mem_stack_iff.2 (.inl List.mem_cons_self))
  by_cases first : t.link b = t.number b
  · have apart : b ∉ front := fun mem => Nat.lt_irrefl _ (bounded.deeper_front sound mem).1
    have closed := close_of_eq bounded.split apart first
    rw [closed] at keeps' entered ⊢
    refine ⟨bounded.pop sound below first, keeps', entered, ⟨[], rfl, by simp⟩,
      .inl fun c hc => ?_⟩
    show t.number c ≤ t.link b
    rw [first]
    exact Nat.le_of_lt (bounded.deeper_rest sound hc).1
  · have later : t.link b < t.number b := Nat.lt_of_le_of_ne bounded.own first
    have closed := close_of_lt later
    rw [closed] at keeps' entered ⊢
    refine ⟨bounded.stay sound below attained later, keeps', entered,
      ⟨front ++ [b], by simp [bounded.split], fun c hc d hd edge => ?_⟩, .inr attained⟩
    exact (bounded.leads sound below (by simpa [or_comm] using hc) edge).2 hd

/-- The link is lowered to a bound that is attained. -/
theorem of_lower {m : Nat} (sound : g.Sound (a :: path) s) (below : path ⊆ rest)
    (bounded : g.Bounded s a (min (s.link a) m) front rest done)
    (seen : g.Attained s a (min (s.link a) m)) : g.Following path rest a done (s.lower a m) := by
  have here : a ∈ s.stack := bounded.mem_stack_iff.2 (.inl List.mem_cons_self)
  have link : (s.lower a m).link a = min (s.link a) m := by
    rw [link_lower (sound.mem_low (sound.entered_of_stack here)), if_pos rfl]
  obtain ⟨low, -, same⟩ := exists_lower s a m
  refine ⟨sound.lower a m, below, ⟨front, ?_⟩, ?_⟩ <;> rw [link, same]
  · exact ⟨bounded.split, bounded.own, bounded.followed, bounded.above⟩
  · exact seen

section Edges

variable (h : g.Following path rest a done s)

include h

theorem onStack : a :: path ⊆ s.stack := by
  obtain ⟨_, below, ⟨front, bounded⟩, -⟩ := h
  intro c hc
  rw [bounded.mem_stack_iff]
  rcases List.mem_cons.1 hc with rfl | hc
  · exact .inl List.mem_cons_self
  · exact .inr (below hc)

theorem known : a ∈ s.entered := h.sound.entered_of_stack (h.onStack List.mem_cons_self)

/-- An edge that leads out of the graph, or to a complete component, changes nothing. -/
theorem pass (hb : g.Edge a b → b ∈ s.entered ∧ b ∉ s.stack) :
    g.Following path rest a (done ++ [b]) s := by
  obtain ⟨sound, below, ⟨front, bounded⟩, attained⟩ := h
  refine ⟨sound, below, ⟨front, bounded.follow fun edge => ?_⟩, attained⟩
  obtain ⟨entered, offStack⟩ := hb edge
  exact ⟨entered, fun hb => absurd (bounded.mem_stack_iff.2 (.inr hb)) offStack⟩

/-- An edge to a node on the stack lowers the link to its number. -/
theorem meet (edge : g.Edge a b) (onStack : b ∈ s.stack) :
    g.Following path rest a (done ++ [b]) (s.lower a (s.number b)) := by
  obtain ⟨sound, below, ⟨front, bounded⟩, attained⟩ := h
  have seen : g.Attained s a (s.number b) := ⟨b, onStack, .single edge, rfl⟩
  have low : g.Bounded s a (min (s.link a) (s.number b)) front rest (done ++ [b]) :=
    (bounded.mono (Nat.min_le_left _ _)).follow fun _ =>
      ⟨sound.entered_of_stack onStack, fun _ => Nat.min_le_right _ _⟩
  exact of_lower sound below low (attained.min (.inr seen))

/-- Every node on the stack leads to a new one that the open node entered last leads to. -/
theorem reached (edge : g.Edge a b) {c : α} (hc : c ∈ s.stack) : ReflTransGen g.Edge c b := by
  obtain ⟨sound, below, ⟨_, bounded⟩, -⟩ := h
  obtain ⟨p, hp, -, way⟩ := sound.back c hc
  rcases List.mem_cons.1 hp with rfl | hp
  · exact way.tail edge
  · exact (way.trans (bounded.deeper_rest sound (below hp)).2).tail edge

/-- An edge to a new node is entered. -/
theorem descend (edge : g.Edge a b) (new : b ∉ s.entered) :
    g.Following (a :: path) s.stack b [] (s.enter b) :=
  start h.sound h.onStack edge.2 new fun _ => h.reached edge

/-- The link of a new node is passed on to the node from which it was entered. -/
theorem resume (edge : g.Edge a b) (new : b ∉ s.entered)
    (connected : g.Connected (a :: path) s b t) :
    g.Following path rest a (done ++ [b]) (t.lower a (t.link b)) := by
  have here : a ∈ s.stack := h.onStack List.mem_cons_self
  have keeps := connected.keeps
  have number : ∀ c ∈ s.stack, t.number c = s.number c := fun c hc =>
    keeps.number c (h.sound.entered_of_stack hc)
  have link : t.link a = s.link a := keeps.link a h.known fun same => new (same ▸ h.known)
  obtain ⟨sound, below, ⟨front, bounded⟩, c, hc, way, same⟩ := h
  obtain ⟨more, stack, low⟩ := connected.grown
  have attained : g.Attained t a (t.link a) :=
    ⟨c, by simp [stack, hc], way, by rw [number c hc, same, link]⟩
  have seen : t.link a ≤ t.link b ∨ g.Attained t a (t.link b) := by
    rcases connected.link with le | ⟨d, hd, way', same'⟩
    · refine .inl (Nat.le_trans ?_ (le a here))
      rw [link, number a here]
      exact bounded.own
    · exact .inr ⟨d, hd, .head edge way', same'⟩
  have inside : ∀ d ∈ rest, d ∈ s.stack := fun d hd => bounded.mem_stack_iff.2 (.inr hd)
  rw [← link] at bounded
  have grown := (bounded.mono (Nat.min_le_left _ (t.link b))).grow stack number keeps.entered
    fun c hc d hd out => Nat.le_trans (Nat.min_le_right _ _) (low c hc d (inside d hd) out)
  refine of_lower connected.sound below (grown.follow fun _ => ?_) (attained.min seen)
  exact ⟨connected.entered, fun hb => absurd (sound.entered_of_stack (inside b hb)) new⟩

end Edges

end Following

theorem follow_new {bs : List α} (inside : b ∈ g.keys) (new : b ∉ s.entered) :
    (g.follow a (b :: bs) s).1
      = (g.follow a bs ((g.connect s b).lower a ((g.connect s b).link b))).1 := by
  rw [follow, dif_pos inside, dif_pos new]
  rfl

/-- What following the edges of an open node does. The induction is that of the search: an edge to a
new node is followed by all edges from there, and the node is then closed. -/
theorem following_follow (bs : List α) (s : Descent α) (successors : bs ⊆ g.successors a)
    (h : g.Following path rest a done s) :
    g.Following path rest a (done ++ bs) (g.follow a bs s).1 ∧ Keeps a s (g.follow a bs s).1 := by
  induction a, bs, s using follow.induct g generalizing path rest done with
  | case1 a s =>
    rw [follow, List.append_nil]
    exact ⟨h, .refl a s⟩
  | case2 a b bs s inside new =>
    rename_i inner _ outer
    obtain ⟨hb, successors⟩ := List.cons_subset.1 successors
    have edge : g.Edge a b := ⟨hb, inside⟩
    obtain ⟨followed, keeps⟩ := inner (List.Subset.refl _) (h.descend edge new)
    have connected : g.Connected (a :: path) s b (g.connect s b) := followed.close keeps new
    have linked : a ∈ (g.connect s b).low.keys :=
      connected.sound.mem_low (connected.keeps.entered h.known)
    obtain ⟨rest, keeps'⟩ := outer successors (h.resume edge new connected)
    rw [follow_new inside new, List.append_cons]
    exact ⟨rest, ((connected.keeps.of_new new a).trans (.lower linked _)).trans keeps'⟩
  | case3 a b bs s inside old onStack ih =>
    obtain ⟨hb, successors⟩ := List.cons_subset.1 successors
    obtain ⟨rest, keeps⟩ := ih successors (h.meet ⟨hb, inside⟩ onStack)
    rw [follow, dif_pos inside, dif_neg old, if_pos onStack, List.append_cons]
    exact ⟨rest, (Keeps.lower (h.sound.mem_low h.known) _).trans keeps⟩
  | case4 a b bs s inside old offStack ih =>
    rw [follow, dif_pos inside, dif_neg old, if_neg offStack, List.append_cons]
    exact ih (List.cons_subset.1 successors).2
      (h.pass fun _ => ⟨Classical.not_not.1 old, offStack⟩)
  | case5 a b bs s outside ih =>
    rw [follow, dif_neg outside, List.append_cons]
    exact ih (List.cons_subset.1 successors).2 (h.pass fun edge => absurd edge.2 outside)

/-- A node that is entered from outside is followed and closed, and the stack is empty again. -/
theorem Sound.connect (h : g.Sound [] s) (inside : b ∈ g.keys) (new : b ∉ s.entered) :
    g.Connected [] s b (g.connect s b) := by
  have empty : ∀ c ∈ s.stack, ReflTransGen g.Edge c b := fun c hc => by
    obtain ⟨_, none, -⟩ := h.back c hc
    cases none
  have entered := Following.start h (List.nil_subset _) inside new empty
  obtain ⟨followed, keeps⟩ := following_follow (g.successors b) _ (List.Subset.refl _) entered
  exact followed.close keeps new

theorem sound_connectAll (nodes : List α) (s : Descent α) (inside : nodes ⊆ g.keys)
    (h : g.Sound [] s) : g.Sound [] (g.connectAll s nodes)
      ∧ s.entered ⊆ (g.connectAll s nodes).entered ∧ nodes ⊆ (g.connectAll s nodes).entered := by
  induction nodes generalizing s with
  | nil => exact ⟨h, List.Subset.refl _, List.nil_subset _⟩
  | cons a nodes ih =>
    obtain ⟨here, inside⟩ := List.cons_subset.1 inside
    rw [connectAll, List.foldl_cons]
    split <;> rename_i entered
    · obtain ⟨sound, kept, rest⟩ := ih s inside h
      exact ⟨sound, kept, List.cons_subset.2 ⟨kept entered, rest⟩⟩
    · have connected := h.connect here entered
      obtain ⟨sound, kept, rest⟩ := ih _ inside connected.sound
      exact ⟨sound, fun b hb => kept (connected.keeps.entered hb),
        List.cons_subset.2 ⟨kept connected.entered, rest⟩⟩

theorem sound_start (g : Graph α) : g.Sound [] .start where
  known _ ha := (List.not_mem_nil ha).elim
  linked := rfl
  numbered _ ha := (List.not_mem_nil ha).elim
  placed _ := ⟨.inl, fun ha => ha.elim id id⟩
  apart _ ha := (List.not_mem_nil ha).elim
  line := .nil
  followed _ ha := (List.not_mem_nil ha).elim
  back _ ha := (List.not_mem_nil ha).elim
  emitted := ⟨by simp [Descent.start], by simp [Descent.start], List.nodup_nil, .nil⟩

/-- At the end every node lies in one of the components. -/
theorem emitted_components (g : Graph α) :
    g.Emitted g.components ∧ ∀ a, a ∈ g.components.flatten ↔ a ∈ g.keys := by
  obtain ⟨sound, -, all⟩ := sound_connectAll g.keys .start (List.Subset.refl _) (sound_start g)
  refine ⟨sound.emitted, fun a => ⟨fun ha => sound.known a ((sound.placed a).2 (.inr ha)), ?_⟩⟩
  intro ha
  refine ((sound.placed a).1 (all ha)).resolve_left fun onStack => ?_
  obtain ⟨_, none, -⟩ := sound.back a onStack
  cases none

end Productions.Graph
