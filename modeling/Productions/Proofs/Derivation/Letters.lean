import Mathlib
import Productions.Rule.Nullable

/-! Annotated strings. A letter is a terminal, an external token, or a bracket that an annotation
puts around what it covers. Inside tokens the brackets are taken away, and a string is silent if
every terminal of it can match the empty text. A place in two strings one after the other is a place
in one of them, and a place in a repeated string is a place in one of its rounds.

Mathlib is imported whole here and nowhere else: the order of languages is the one it settles on as
a whole, and runs on fixed inputs in later modules use equations of `StateT` and `ByteArray` that
none of its parts has alone. -/
namespace Productions

open scoped Computability

section Places

variable {α : Type}

theorem place_in_append {a b x y : List α} {u : α} (h : a ++ b = x ++ u :: y) :
    (∃ y', a = x ++ u :: y' ∧ y = y' ++ b) ∨ ∃ x', b = x' ++ u :: y ∧ x = a ++ x' := by
  rcases List.append_eq_append_iff.1 h with ⟨x', rfl, hb⟩ | ⟨rest, rfl, hrest⟩
  · exact .inr ⟨x', hb, rfl⟩
  · cases rest with
    | nil => exact .inr ⟨[], by simpa using hrest.symm, by simp⟩
    | cons c cs =>
      rw [List.cons_append, List.cons.injEq] at hrest
      obtain ⟨rfl, rfl⟩ := hrest
      exact .inl ⟨cs, rfl, rfl⟩

theorem place_in_single {s u : α} {x y : List α} (h : x ++ u :: y = [s]) : u = s := by
  cases x with
  | nil => exact (List.cons.inj h).1
  | cons a x => simp at h

theorem place_in_flatten {L : Language α} {x y : List α} {u : α}
    (h : x ++ u :: y ∈ L∗) :
    ∃ x' y', x' ++ u :: y' ∈ L ∧ (∀ s ∈ x', s ∈ x) ∧ ∀ s ∈ y', s ∈ y := by
  obtain ⟨rounds, same, hrounds⟩ := h
  induction rounds generalizing x with
  | nil => simp at same
  | cons a rounds ih =>
    rw [List.flatten_cons] at same
    rcases place_in_append same.symm with ⟨y', rfl, rfl⟩ | ⟨x', hb, rfl⟩
    · exact ⟨x, y', hrounds _ (by simp), fun _ hs => hs, fun s hs => by simp [hs]⟩
    · obtain ⟨x'', y'', mem, before, after⟩ := ih hb.symm fun b hb => hrounds b (by simp [hb])
      exact ⟨x'', y'', mem, fun s hs => by simp [before s hs], after⟩

end Places

/-- What an annotation puts around the string it covers. -/
inductive Bracket where
  | prec (value : Precedence) (assoc : Assoc)
  | aliased (value : String) (named : Bool)
  | field (name : String)
  deriving DecidableEq, Repr

inductive Letter where
  | terminal (terminal : Terminal)
  | external (name : String)
  | opening (bracket : Bracket)
  | closing (bracket : Bracket)
  deriving DecidableEq, Repr

namespace Letter

def isBracket : Letter → Bool
  | opening _ | closing _ => true
  | terminal _ | external _ => false

/-- A letter that can match the empty text. An external token never does. -/
def isSilent : Letter → Bool
  | terminal t => t.nullable
  | external _ => false
  | opening _ | closing _ => true

def bare (w : List Letter) : List Letter := w.filter fun l => !l.isBracket

def enclose (b : Bracket) (w : List Letter) : List Letter := opening b :: w ++ [closing b]

def silent (w : List Letter) : Bool := w.all isSilent

@[simp] theorem bare_nil : bare [] = [] := rfl

@[simp] theorem bare_append (u w : List Letter) : bare (u ++ w) = bare u ++ bare w := by
  simp [bare]

@[simp] theorem bare_bare (w : List Letter) : bare (bare w) = bare w := by
  simp [bare]

@[simp] theorem bare_enclose (b : Bracket) (w : List Letter) : bare (enclose b w) = bare w := by
  simp [bare, enclose, isBracket]

@[simp] theorem silent_append (u w : List Letter) : silent (u ++ w) = (silent u && silent w) := by
  simp [silent]

@[simp] theorem silent_enclose (b : Bracket) (w : List Letter) :
    silent (enclose b w) = silent w := by
  simp [silent, enclose, isSilent]

@[simp] theorem silent_bare (w : List Letter) : silent (bare w) = silent w := by
  induction w with
  | nil => rfl
  | cons l w ih =>
    cases l <;> simp_all [silent, bare, isBracket, isSilent]

end Letter

def bared (L : Language Letter) : Language Letter := {w | ∃ u ∈ L, Letter.bare u = w}

def enclosed (b : Bracket) (L : Language Letter) : Language Letter :=
  {w | ∃ u ∈ L, Letter.enclose b u = w}

/-- Whether a language has a silent string. -/
def Vanishes (L : Language Letter) : Prop := ∃ w ∈ L, Letter.silent w = true

theorem mem_bared {L : Language Letter} {w : List Letter} :
    w ∈ bared L ↔ ∃ u ∈ L, Letter.bare u = w := Iff.rfl

theorem mem_enclosed {b : Bracket} {L : Language Letter} {w : List Letter} :
    w ∈ enclosed b L ↔ ∃ u ∈ L, Letter.enclose b u = w := Iff.rfl

theorem bared_mono {L M : Language Letter} (h : L ≤ M) : bared L ≤ bared M := by
  rintro w ⟨u, hu, rfl⟩
  exact ⟨u, h hu, rfl⟩

theorem enclosed_mono (b : Bracket) {L M : Language Letter} (h : L ≤ M) :
    enclosed b L ≤ enclosed b M := by
  rintro w ⟨u, hu, rfl⟩
  exact ⟨u, h hu, rfl⟩

@[simp] theorem bared_one : bared 1 = 1 := by
  ext w
  simp [mem_bared, eq_comm]

@[simp] theorem bared_add (L M : Language Letter) : bared (L + M) = bared L + bared M := by
  ext w
  simp only [mem_bared, Language.mem_add, or_and_right, exists_or]

@[simp] theorem bared_mul (L M : Language Letter) : bared (L * M) = bared L * bared M := by
  ext w
  simp only [mem_bared, Language.mem_mul]
  constructor
  · rintro ⟨u, ⟨a, ha, b, hb, rfl⟩, rfl⟩
    exact ⟨_, ⟨a, ha, rfl⟩, _, ⟨b, hb, rfl⟩, (Letter.bare_append a b).symm⟩
  · rintro ⟨_, ⟨a, ha, rfl⟩, _, ⟨b, hb, rfl⟩, rfl⟩
    exact ⟨a ++ b, ⟨a, ha, b, hb, rfl⟩, Letter.bare_append a b⟩

@[simp] theorem bared_bared (L : Language Letter) : bared (bared L) = bared L := by
  ext w
  simp only [mem_bared]
  constructor
  · rintro ⟨_, ⟨u, hu, rfl⟩, rfl⟩
    exact ⟨u, hu, (Letter.bare_bare u).symm⟩
  · rintro ⟨u, hu, rfl⟩
    exact ⟨_, ⟨u, hu, rfl⟩, Letter.bare_bare u⟩

@[simp] theorem bared_enclosed (b : Bracket) (L : Language Letter) :
    bared (enclosed b L) = bared L := by
  ext w
  simp only [mem_bared, mem_enclosed]
  constructor
  · rintro ⟨_, ⟨u, hu, rfl⟩, rfl⟩
    exact ⟨u, hu, (Letter.bare_enclose b u).symm⟩
  · rintro ⟨u, hu, rfl⟩
    exact ⟨_, ⟨u, hu, rfl⟩, Letter.bare_enclose b u⟩

theorem bared_pow (L : Language Letter) (n : ℕ) : bared (L ^ n) = bared L ^ n := by
  induction n with
  | zero => simp
  | succ n ih => rw [pow_succ, pow_succ, bared_mul, ih]

@[simp] theorem bared_kstar (L : Language Letter) : bared L∗ = (bared L)∗ := by
  rw [Language.kstar_eq_iSup_pow, Language.kstar_eq_iSup_pow]
  ext w
  simp only [mem_bared, Language.mem_iSup, ← bared_pow]
  exact ⟨fun ⟨u, ⟨n, hu⟩, hw⟩ => ⟨n, u, hu, hw⟩, fun ⟨n, u, hu, hw⟩ => ⟨u, ⟨n, hu⟩, hw⟩⟩

def single (l : Letter) : Language Letter := {[l]}

@[simp] theorem mem_single {l : Letter} {w : List Letter} : w ∈ single l ↔ w = [l] := Iff.rfl

@[simp] theorem bared_single {l : Letter} (h : l.isBracket = false) :
    bared (single l) = single l := by
  have bare : Letter.bare [l] = [l] := by simp [Letter.bare, h]
  ext w
  simp only [mem_bared, mem_single]
  exact ⟨fun ⟨u, hu, hw⟩ => by rw [← hw, hu, bare], fun hw => ⟨[l], rfl, by rw [hw, bare]⟩⟩

end Productions
