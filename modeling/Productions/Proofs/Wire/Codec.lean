import Mathlib.Algebra.Group.Int.Defs
import Mathlib.Algebra.Group.Nat.Defs
import Mathlib.Tactic.Common
import Productions.Proofs.Ordered
import Productions.Wire.Codec

/-! Reading takes back what writing has put down, and leaves the bytes after it. Codecs that do so
are put together from each other: each one says which values it can write, and that it writes at
least one byte. Lengths are numbers below 2⁶⁴, which holds of everything whose bytes can be counted
by such a number. -/
namespace Productions

namespace Wire

def Reads {α : Type} (d : Decoder α) (a : α) (bytes : Bytes) : Prop :=
  ∀ rest, d (bytes ++ rest) = .ok (a, rest)

section Reads

variable {α β : Type} {d : Decoder α} {f : α → Decoder β} {x y : Bytes} {a : α} {b : β}

theorem reads_pure (a : α) : Reads (pure a) a [] := fun _ => rfl

theorem reads_byte (b : UInt8) : Reads byte b [b] := fun _ => rfl

theorem Reads.bind (h : Reads d a x) (next : Reads (f a) b y) : Reads (d >>= f) b (x ++ y) := by
  intro rest
  rw [List.append_assoc]
  simp only [Bind.bind, StateT.bind, h (y ++ rest), Except.bind]
  exact next rest

theorem Reads.last (h : Reads d a x) (next : Reads (f a) b []) : Reads (d >>= f) b x := by
  have both := h.bind next
  rwa [List.append_nil] at both

theorem Reads.bind_pure (h : Reads d a x) (g : α → β) :
    Reads (d >>= fun a => pure (g a)) (g a) x :=
  h.last (reads_pure (g a))

theorem Reads.map (h : Reads d a x) (g : α → β) : Reads (g <$> d) (g a) x := by
  intro rest
  simp only [Functor.map, StateT.map, h rest, Bind.bind, Except.bind, Pure.pure, Except.pure]

end Reads

theorem toNat_toUInt8 {n : ℕ} (h : n < 256) : n.toUInt8.toNat = n := by
  simp [Nat.mod_eq_of_lt h]

theorem encodeNat_ne_nil (n : ℕ) : encodeNat n ≠ [] := by
  rw [encodeNat]
  split <;> simp

/-- A number is read back if its last group fits the last byte. -/
theorem reads_decodeNat (top more n : ℕ) (small : top < 128) (fits : n < (top + 1) * 128 ^ more) :
    Reads (decodeNat top more) n (encodeNat n) := by
  induction more generalizing n with
  | zero =>
    have below : n ≤ top := by omega
    have one : n.toUInt8.toNat = n := toNat_toUInt8 (by omega)
    rw [encodeNat, if_pos (by omega), decodeNat]
    refine (reads_byte _).last ?_
    rw [one, if_pos below]
    exact reads_pure n
  | succ more ih =>
    rw [encodeNat, decodeNat]
    split <;> rename_i last
    · have one : n.toUInt8.toNat = n := toNat_toUInt8 (by omega)
      refine (reads_byte _).last ?_
      rw [one, if_pos last]
      exact reads_pure n
    · have low : (n % 128 + 128).toUInt8.toNat = n % 128 + 128 := toNat_toUInt8 (by omega)
      have high : n / 128 < (top + 1) * 128 ^ more := by
        rw [Nat.div_lt_iff_lt_mul (by decide), Nat.mul_assoc, ← Nat.pow_succ]
        exact fits
      have value : n % 128 + 128 - 128 + 128 * (n / 128) = n := by omega
      refine (reads_byte _).bind ?_
      rw [low, if_neg (by omega)]
      refine (ih _ high).last ?_
      rw [value]
      exact reads_pure n
namespace Codec

/-- The values of a predicate are read back from what is written of them, as long as its length is
below 2⁶⁴. -/
structure Lossless {α : Type} (c : Codec α) (p : α → Prop) : Prop where
  encode_ne_nil : ∀ a, c.encode a ≠ []
  reads : ∀ a, p a → (c.encode a).length < 2 ^ 64 → Reads c.decode a (c.encode a)

variable {α β : Type} {c : Codec α} {d : Codec β} {p q : α → Prop} {r : β → Prop}

theorem Lossless.mono (h : c.Lossless p) (le : ∀ a, q a → p a) : c.Lossless q :=
  ⟨h.encode_ne_nil, fun a ha => h.reads a (le a ha)⟩

theorem read_eq_of_reads {a : α} {bytes : Bytes} (h : Reads c.decode a bytes) (rest : Bytes) :
    c.read (bytes ++ rest) = .ok a := by
  rw [read, h rest]

theorem reads_word {n : ℕ} (h : n < 2 ^ 32) : Reads word.decode n (word.encode n) :=
  reads_decodeNat 15 4 n (by decide) h

theorem reads_size {n : ℕ} (h : n < 2 ^ 64) : Reads size.decode n (size.encode n) :=
  reads_decodeNat 1 9 n (by decide) h

theorem lossless_word : word.Lossless (· < 2 ^ 32) :=
  ⟨encodeNat_ne_nil, fun _ h _ => reads_word h⟩

theorem lossless_size : size.Lossless (· < 2 ^ 64) :=
  ⟨encodeNat_ne_nil, fun _ h _ => reads_size h⟩

/-- What comes back is what is made of the value that was written. -/
theorem Lossless.reads_via (h : c.Lossless p) (f : β → α) (g : α → β) {b : β} (hb : p (f b))
    (short : ((c.via f g).encode b).length < 2 ^ 64) :
    Reads (c.via f g).decode (g (f b)) ((c.via f g).encode b) :=
  (h.reads (f b) hb short).map g

theorem Lossless.via (h : c.Lossless p) {f : β → α} {g : α → β} (back : ∀ b, g (f b) = b) :
    (c.via f g).Lossless fun b => p (f b) where
  encode_ne_nil b := h.encode_ne_nil (f b)
  reads b hb short := by
    have there := h.reads_via f g hb short
    rwa [back] at there

theorem unzigzag_zigzag (k : Int) : unzigzag (zigzag k) = k := by
  cases k with
  | ofNat n =>
    rw [zigzag, unzigzag, if_pos (by omega)]
    congr 1
    omega
  | negSucc n =>
    rw [zigzag, unzigzag, if_neg (by omega)]
    congr 1
    omega

def IsLevel (k : Int) : Prop := -2 ^ 31 ≤ k ∧ k < 2 ^ 31

theorem zigzag_lt {k : Int} (h : IsLevel k) : zigzag k < 2 ^ 32 := by
  obtain ⟨low, high⟩ := h
  cases k with
  | ofNat n =>
    rw [zigzag]
    rw [Int.ofNat_eq_natCast] at high
    omega
  | negSucc n =>
    rw [zigzag]
    omega

theorem lossless_level : level.Lossless IsLevel :=
  (lossless_word.via unzigzag_zigzag).mono fun _ => zigzag_lt

theorem lossless_bool : bool.Lossless fun _ => True where
  encode_ne_nil _ := List.cons_ne_nil _ _
  reads b _ _ _ := by cases b <;> rfl

theorem reads_take (front : Bytes) : Reads (take front.length) front front := by
  intro rest
  rw [take, if_neg (by simp), List.take_left, List.drop_left]

theorem fromUTF8?_toUTF8 (t : String) : String.fromUTF8? ⟨t.toUTF8.data.toList.toArray⟩ = some t := by
  rw [Array.toArray_toList]
  exact dif_pos t.isValidUTF8

theorem lossless_text : text.Lossless fun _ => True where
  encode_ne_nil _ := List.append_ne_nil_of_left_ne_nil (encodeNat_ne_nil _) _
  reads t _ short := by
    have count : t.utf8ByteSize = t.toUTF8.data.toList.length := by
      rw [← String.size_toByteArray, Array.length_toList]
      rfl
    simp only [text, encodeText, List.length_append] at short
    simp only [text, encodeText, decodeText]
    refine (reads_size (by omega)).bind ?_
    rw [count]
    refine (reads_take _).last ?_
    rw [fromUTF8?_toUTF8]
    exact reads_pure t

theorem Lossless.pair (hc : c.Lossless p) (hd : d.Lossless r) :
    (c.pair d).Lossless fun x => p x.1 ∧ r x.2 where
  encode_ne_nil _ := List.append_ne_nil_of_left_ne_nil (hc.encode_ne_nil _) _
  reads x hx short := by
    obtain ⟨a, b⟩ := x
    simp only [Codec.pair, List.length_append] at short
    exact (hc.reads a hx.1 (by omega)).bind ((hd.reads b hx.2 (by omega)).bind_pure _)

theorem Lossless.option (h : c.Lossless p) :
    (option c).Lossless fun o => ∀ a, o = some a → p a where
  encode_ne_nil o := by cases o <;> exact List.cons_ne_nil _ _
  reads o ho short := by
    cases o with
    | none => exact fun _ => rfl
    | some a =>
      simp only [Codec.option, List.length_cons] at short
      exact (reads_byte 1).bind ((h.reads a (ho a rfl) (by omega)).bind_pure some)

theorem reads_decodeMany {dec : Decoder α} {enc : α → Bytes} (as : List α)
    (each : ∀ a ∈ as, Reads dec a (enc a)) :
    Reads (decodeMany dec as.length) as (as.flatMap enc) := by
  induction as with
  | nil => exact reads_pure []
  | cons a as ih =>
    have rest := ih fun b hb => each b (by simp [hb])
    exact (each a (by simp)).bind (rest.bind_pure _)

theorem length_le_length_flatMap {enc : α → Bytes} (written : ∀ a, enc a ≠ []) (as : List α) :
    as.length ≤ (as.flatMap enc).length := by
  induction as with
  | nil => simp
  | cons a as ih =>
    have := List.length_pos_iff.2 (written a)
    rw [List.flatMap_cons, List.length_append, List.length_cons]
    omega

theorem length_le_of_mem_flatMap (enc : α → Bytes) {a : α} {as : List α} (ha : a ∈ as) :
    (enc a).length ≤ (as.flatMap enc).length :=
  (List.sublist_flatten_of_mem (List.mem_map_of_mem ha)).length_le

theorem reads_decodeList {dec : Decoder α} {enc : α → Bytes} {as : List α}
    (written : ∀ a, enc a ≠ []) (short : (as.flatMap enc).length < 2 ^ 64)
    (each : ∀ a ∈ as, Reads dec a (enc a)) :
    Reads (decodeList dec) as (size.encode as.length ++ as.flatMap enc) := by
  have count := length_le_length_flatMap written as
  exact (reads_size (by omega)).bind (reads_decodeMany as each)

theorem Lossless.list (h : c.Lossless p) : (list c).Lossless fun as => ∀ a ∈ as, p a where
  encode_ne_nil _ := List.append_ne_nil_of_left_ne_nil (encodeNat_ne_nil _) _
  reads as has short := by
    simp only [Codec.list, List.length_append] at short
    refine reads_decodeList h.encode_ne_nil (by omega) fun a ha => ?_
    have part := length_le_of_mem_flatMap c.encode ha
    exact h.reads a (has a ha) (by omega)

theorem Lossless.map (h : c.Lossless p) : (map c).Lossless fun m => ∀ e ∈ m.entries, p e.2 :=
  ((lossless_text.pair h).list.via OrderedMap.ofList_entries).mono fun _ hm e he =>
    ⟨trivial, hm e he⟩

theorem case_ne_nil (place : ℕ) (payload : Bytes) : case place payload ≠ [] :=
  List.append_ne_nil_of_left_ne_nil (encodeNat_ne_nil _) _

theorem length_lt_length_case (place : ℕ) (payload : Bytes) :
    payload.length < (case place payload).length := by
  have tag := List.length_pos_iff.2 (encodeNat_ne_nil place)
  rw [case, List.length_append]
  change _ < (encodeNat place).length + _
  omega

/-- Something is left of a depth that a case fits in when its place has been read. -/
theorem exists_depth {place depth : ℕ} {payload : Bytes}
    (deep : (case place payload).length ≤ depth) :
    ∃ inner, depth = inner + 1 ∧ payload.length ≤ inner := by
  have part := length_lt_length_case place payload
  exact ⟨depth - 1, by omega, by omega⟩

/-- A case is read by its place, and then as the place says. -/
theorem reads_case {next : ℕ → Decoder α} {a : α} {place : ℕ} {payload : Bytes}
    (h : place < 2 ^ 32) (inner : Reads (next place) a payload) :
    Reads (word.decode >>= next) a (case place payload) :=
  (reads_word h).bind inner

theorem lossless_oneOf [DecidableEq α] {values : List α} (few : values.length ≤ 2 ^ 32) :
    (oneOf values).Lossless (· ∈ values) where
  encode_ne_nil _ := case_ne_nil _ _
  reads a ha _ := by
    have place := List.idxOf_lt_length_of_mem ha
    have found : values[values.idxOf a]? = some a := by
      rw [List.getElem?_eq_getElem place, List.getElem_idxOf]
    refine reads_case (by omega) ?_
    rw [found]
    exact reads_pure a

theorem Lossless.either (hc : c.Lossless p) (hd : d.Lossless r) :
    (c.either d).Lossless (Sum.elim p r) where
  encode_ne_nil x := by cases x <;> exact case_ne_nil _ _
  reads x hx short := by
    cases x with
    | inl a =>
      have part := length_lt_length_case 0 (c.encode a)
      exact reads_case (by decide) ((hc.reads a hx (Nat.lt_trans part short)).bind_pure _)
    | inr b =>
      have part := length_lt_length_case 1 (d.encode b)
      exact reads_case (by decide) ((hd.reads b hx (Nat.lt_trans part short)).bind_pure _)

end Codec

end Wire

end Productions
