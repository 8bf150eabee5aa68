import Mathlib.Data.String.Basic
import Mathlib.Tactic.Common
import Mathlib.Tactic.IntervalCases
import Productions.Proofs.Json.Syntax

/-! Readers of scalars take exactly the texts of a scalar. A number ends where no digit, point or
exponent follows; a string ends at its closing quote, whatever follows. -/
namespace Productions.Json

namespace Reader

variable {α β : Type} {d : Reader α} {f : α → Reader β} {g : α → β} {a : α} {s t : List Char}

@[simp] theorem bind_of_ok (h : d s = .ok (a, t)) : (d >>= f) s = f a t := by
  simp only [bind, StateT.bind, h, Except.bind]

@[simp] theorem map_of_ok (h : d s = .ok (a, t)) : (g <$> d) s = .ok (g a, t) := by
  simp only [Functor.map, StateT.map, h, bind, Except.bind, pure, Except.pure]

@[simp] theorem discard_of_ok (h : d s = .ok (a, t)) : (discard d) s = .ok ((), t) :=
  map_of_ok h

@[simp] theorem pure_apply (a : α) (s : List Char) : (pure a : Reader α) s = .ok (a, s) := rfl

@[simp] theorem skipOne_cons (c : Char) (s : List Char) : skipOne (c :: s) = .ok ((), s) := rfl

end Reader

theorem hexValue?_eq {c : Char} {value : ℕ} (h : IsHex c value) : hexValue? c = some value := by
  rcases h with h | h <;> obtain ⟨small, rfl⟩ := List.getElem?_eq_some_iff.1 h <;>
    replace small : value < 16 := small <;> interval_cases value <;> rfl

theorem HexUnit.hasFourBytes {digits : List Char} {value : ℕ} (h : HexUnit digits value)
    (rest : List Char) : hasFourBytes (digits ++ rest) = true := by
  obtain ⟨-, -, -, -⟩ := h
  rename_i a b c d _ _ _ _
  have := a.utf8Size_pos
  have := b.utf8Size_pos
  have := c.utf8Size_pos
  have := d.utf8Size_pos
  simp only [Json.hasFourBytes, List.cons_append, List.nil_append, List.take_succ_cons,
    List.take_zero, String.utf8ByteSize_ofList, String.utf8Len_cons, String.utf8Len_nil,
    decide_eq_true_eq]
  omega

section Steps

variable {strict : Bool} {state state' : StringState} {read read' digits rest : List Char} {c : Char}
  {value unit : ℕ}

theorem stringFrom_of_step
    (h : stringStep strict state read c rest = .ok (some (state', read'))) :
    stringFrom strict state read (c :: rest) = stringFrom strict state' read' rest := by
  rw [stringFrom, h]

theorem stringFrom_hex (h : HexUnit digits value) (state : StringState) (read' : List Char)
    (last : ∀ c before digit, hexValue? c = some digit → 16 * before + digit = value →
      stringStep strict (.hex 1 before) read c rest = .ok (some (state, read'))) :
    stringFrom strict .plain read ('\\' :: 'u' :: (digits ++ rest)) =
      stringFrom strict state read' rest := by
  have bytes := h.hasFourBytes rest
  obtain ⟨first, second, third, fourth⟩ := h
  rw [stringFrom_of_step rfl, stringFrom_of_step (by simp only [stringStep, if_pos, bytes]; rfl)]
  simp only [List.cons_append, List.nil_append]
  rw [stringFrom_of_step (by rw [stringStep, hexValue?_eq first]; rfl),
    stringFrom_of_step (by rw [stringStep, hexValue?_eq second]; rfl),
    stringFrom_of_step (by rw [stringStep, hexValue?_eq third]; rfl)]
  exact stringFrom_of_step (last _ _ _ (hexValue?_eq fourth) (by omega))

theorem stringFrom_trail (h : HexUnit digits value) (low : isTrail value = true) :
    stringFrom strict (.lead unit) read ('\\' :: 'u' :: (digits ++ rest)) =
      stringFrom strict .plain
        (Char.ofNat (0x10000 + 0x400 * (unit - 0xD800) + (value - 0xDC00)) :: read) rest := by
  have bytes := h.hasFourBytes rest
  obtain ⟨first, second, third, fourth⟩ := h
  rw [stringFrom_of_step rfl, stringFrom_of_step (by simp only [stringStep, if_pos, bytes]; rfl)]
  simp only [List.cons_append, List.nil_append]
  rw [stringFrom_of_step (by rw [stringStep, hexValue?_eq first]; rfl),
    stringFrom_of_step (by rw [stringStep, hexValue?_eq second]; rfl),
    stringFrom_of_step (by rw [stringStep, hexValue?_eq third]; rfl)]
  refine stringFrom_of_step ?_
  simp only [stringStep, hexValue?_eq fourth]
  rw [if_neg (by decide)]
  simp only [show ∀ x y z w : ℕ, 16 * (16 * (16 * (16 * 0 + x) + y) + z) + w =
    0x1000 * x + 0x100 * y + 0x10 * z + w by omega]
  rw [if_pos low]

theorem stringFrom_plain (quote : c ≠ '"') (escape : c ≠ '\\') (control : 0x20 ≤ c.toNat) :
    stringFrom strict .plain read (c :: rest) = stringFrom strict .plain (c :: read) rest :=
  stringFrom_of_step (by rw [stringStep, if_neg quote, if_neg escape, if_neg (by omega)])

theorem stringFrom_short {e : Char} (known : (e, c) ∈ shortEscapes) :
    stringFrom strict .plain read ('\\' :: e :: rest) = stringFrom strict .plain (c :: read) rest := by
  refine (stringFrom_of_step rfl).trans (stringFrom_of_step ?_)
  simp only [shortEscapes, List.mem_cons, List.not_mem_nil, or_false, Prod.mk.injEq] at known
  rcases known with ⟨rfl, rfl⟩ | ⟨rfl, rfl⟩ | ⟨rfl, rfl⟩ | ⟨rfl, rfl⟩ | ⟨rfl, rfl⟩ | ⟨rfl, rfl⟩ |
    ⟨rfl, rfl⟩ | ⟨rfl, rfl⟩ <;> rfl

end Steps

theorem Spells.stringFrom_eq {cs text : List Char} (h : Spells true cs text)
    (read rest : List Char) :
    stringFrom true .plain read (text ++ rest) =
      stringFrom true .plain (cs.reverse ++ read) rest := by
  induction h generalizing read with
  | nil => rfl
  | plain quote escape control _ ih =>
    simp only [List.cons_append, stringFrom_plain quote escape control, ih, List.reverse_cons,
      List.append_assoc, List.nil_append]
  | short known _ ih =>
    simp only [List.cons_append, stringFrom_short known, ih, List.reverse_cons,
      List.append_assoc, List.nil_append]
  | @unit digits value cs text hex single _ ih =>
    simp only [List.cons_append, List.append_assoc]
    rw [stringFrom_hex hex .plain (Char.ofNat value :: read), ih]
    · simp only [List.reverse_cons, List.append_assoc, List.cons_append, List.nil_append]
    · intro c before digit known eq
      simp only [stringStep, known, eq]
      rw [if_neg (by decide), if_neg (by decide), if_neg (by simp [isTrail]; omega),
        if_neg (by simp [isLead]; omega)]
  | @pair digits lead digits' trail cs text hex hex' high low _ ih =>
    simp only [List.cons_append, List.append_assoc]
    rw [stringFrom_hex hex (.lead (0xD800 + lead)) read,
      stringFrom_trail hex' (by simp [isTrail]; omega), ih, Nat.add_sub_cancel_left,
      Nat.add_sub_cancel_left]
    · simp only [List.reverse_cons, List.append_assoc, List.cons_append, List.nil_append]
    · intro c before digit known eq
      simp only [stringStep, known, eq]
      rw [if_neg (by decide), if_neg (by decide), if_neg (by simp [isTrail]; omega),
        if_pos (by simp [isLead]; omega)]
  | alone _ loose => cases loose

/-- What a text stands for does not matter where it is passed over. -/
theorem Spells.exists_stringFrom_eq {strict : Bool} {cs text : List Char} (h : Spells strict cs text)
    (read rest : List Char) :
    ∃ read', stringFrom false .plain read (text ++ rest) = stringFrom false .plain read' rest := by
  have unit {digits value more} (hex : HexUnit digits value) (read : List Char) :
      stringFrom false .plain read ('\\' :: 'u' :: (digits ++ more)) =
        stringFrom false .plain read more :=
    stringFrom_hex hex .plain read fun c before digit known eq => by
      simp only [stringStep, known]
      rw [if_neg (by decide), if_pos (by decide)]
  induction h generalizing read with
  | nil => exact ⟨read, rfl⟩
  | plain quote escape control _ ih =>
    rw [List.cons_append, stringFrom_plain quote escape control]
    exact ih _
  | short known _ ih =>
    rw [List.cons_append, List.cons_append, stringFrom_short known]
    exact ih _
  | unit hex _ _ ih | alone hex _ _ _ ih =>
    rw [List.cons_append, List.cons_append, List.append_assoc, unit hex]
    exact ih _
  | pair hex hex' _ _ _ ih =>
    simp only [List.cons_append, List.append_assoc]
    rw [unit hex, unit hex']
    exact ih _

namespace Reader

theorem stringRest_of_spells {s : String} {text : List Char} (h : Spells true s.toList text)
    (rest : List Char) : stringRest true (text ++ '"' :: rest) = .ok (s, rest) := by
  refine (h.stringFrom_eq [] _).trans ?_
  rw [List.append_nil, stringFrom]
  simp only [stringStep, if_pos, List.reverse_reverse, String.ofList_toList]

theorem stringRest_false_of_spells {strict : Bool} {cs text : List Char} (h : Spells strict cs text)
    (rest : List Char) : ∃ s, stringRest false (text ++ '"' :: rest) = .ok (s, rest) := by
  obtain ⟨read, eq⟩ := h.exists_stringFrom_eq [] ('"' :: rest)
  exact ⟨String.ofList read.reverse, eq.trans rfl⟩

end Reader

def Avoids (p : Char → Bool) (rest : List Char) : Prop := ∀ c ∈ rest.head?, p c = false

def extendsNumber (c : Char) : Bool := Reader.isDigit c || c = '.' || c = 'e' || c = 'E'

abbrev Stops (rest : List Char) : Prop := Avoids extendsNumber rest

theorem Avoids.imp {p q : Char → Bool} {rest : List Char} (h : Avoids p rest)
    (le : ∀ c, q c = true → p c = true) : Avoids q rest := fun c hc =>
  Bool.eq_false_iff.2 fun yes => Bool.eq_false_iff.1 (h c hc) (le c yes)

/-- No digit or point comes before the exponent, or after a number without one. -/
theorem Power.avoids {power : Option Int} {text rest : List Char} (h : Power power text)
    (stop : Stops rest) : Avoids (fun c => Reader.isDigit c || c = '.') (text ++ rest) := by
  cases h with
  | absent =>
    refine stop.imp fun c yes => ?_
    rw [extendsNumber, yes]
    rfl
  | present known =>
    rintro c ⟨⟩
    rcases known with rfl | rfl <;> rfl

theorem Fraction.avoids {fraction : Option (List Char)} {text rest : List Char}
    (h : Fraction fraction text) (stop : Avoids (fun c => Reader.isDigit c || c = '.') rest) :
    Avoids Reader.isDigit (text ++ rest) := by
  cases h with
  | absent => exact stop.imp fun c yes => by rw [yes, Bool.true_or]
  | present =>
    rintro c ⟨⟩
    rfl

namespace Reader

theorem takeDigits_append {digits rest : List Char} (all : ∀ c ∈ digits, isDigit c = true)
    (stop : Avoids isDigit rest) : takeDigits (digits ++ rest) = .ok (digits, rest) := by
  have ends : rest.takeWhile isDigit = [] ∧ rest.dropWhile isDigit = rest := by
    cases rest with
    | nil => exact ⟨rfl, rfl⟩
    | cons c rest => simp [stop c rfl]
  have whole : takeDigits (digits ++ rest) = .ok ((digits ++ rest).takeWhile isDigit,
      (digits ++ rest).dropWhile isDigit) := rfl
  rw [whole, List.takeWhile_append_of_pos all, List.dropWhile_append_of_pos all, ends.1, ends.2,
    List.append_nil]

theorem takeIf_eq (p : Char → Bool) (c : Char) (rest : List Char) :
    takeIf p (c :: rest) = if p c then .ok (some c, rest) else .ok (none, c :: rest) := by
  change (if p c then (do set rest; return some c : Reader _) else return none) (c :: rest) = _
  split <;> rfl

theorem takeIf_cons {p : Char → Bool} {c : Char} {rest : List Char} (h : p c = true) :
    takeIf p (c :: rest) = .ok (some c, rest) := by
  rw [takeIf_eq, if_pos h]

theorem takeIf_of_avoids {p : Char → Bool} {rest : List Char} (h : Avoids p rest) :
    takeIf p rest = .ok (none, rest) := by
  cases rest with
  | nil => rfl
  | cons c rest => rw [takeIf_eq, h c rfl, if_neg Bool.false_ne_true]

theorem wholeDigits_append {lenient : Bool} {digits rest : List Char} (whole : IsWhole digits)
    (stop : Avoids isDigit rest) : wholeDigits lenient (digits ++ rest) = .ok (digits, rest) := by
  rw [wholeDigits, bind_of_ok (takeDigits_append whole.all stop)]
  split
  · exact absurd rfl whole.nonempty
  · rfl
  · rename_i more single
    exact absurd (List.cons.inj (whole.zero rfl)).2 single
  · rfl

theorem fractionDigits_append {lenient : Bool} {fraction : Option (List Char)}
    {text rest : List Char} (h : Fraction fraction text)
    (stop : Avoids (fun c => isDigit c || c = '.') rest) :
    fractionDigits lenient (text ++ rest) = .ok (fraction, rest) := by
  cases h with
  | absent =>
    have none : Avoids (fun c => decide (c = '.')) rest := stop.imp fun c yes => by simp [yes]
    rw [fractionDigits, List.nil_append, bind_of_ok (takeIf_of_avoids none)]
    rfl
  | @present digits tail =>
    rw [fractionDigits, List.cons_append, bind_of_ok (takeIf_cons rfl)]
    have ends : Avoids isDigit rest := stop.imp fun c yes => by simp [yes]
    simp only
    rw [bind_of_ok (takeDigits_append tail.all ends)]
    split
    · exact absurd rfl tail.nonempty
    · rfl

theorem takeIf_sign {negative : Bool} {sign digits : List Char} (h : Sign negative sign)
    (tail : IsTail digits) (rest : List Char) :
    ∃ found : Option Char, (found = some '-' ↔ negative = true) ∧
      takeIf (fun c => c = '+' || c = '-') (sign ++ (digits ++ rest)) =
        .ok (found, digits ++ rest) := by
  cases h with
  | none =>
    refine ⟨none, by simp, takeIf_of_avoids fun c hc => ?_⟩
    obtain ⟨d, digits, rfl⟩ := List.exists_cons_of_ne_nil tail.nonempty
    cases hc
    have digit : isDigit c = true := tail.all c List.mem_cons_self
    simp only [Bool.or_eq_false_iff, decide_eq_false_iff_not]
    constructor <;> rintro rfl <;> exact absurd digit (by decide)
  | plus => exact ⟨some '+', by decide, takeIf_cons rfl⟩
  | minus => exact ⟨some '-', by decide, takeIf_cons rfl⟩

theorem exponent_append {lenient : Bool} {power : Option Int} {text rest : List Char}
    (h : Power power text) (stop : Stops rest) :
    exponent lenient (text ++ rest) = .ok (power, rest) := by
  cases h with
  | absent =>
    have none : Avoids (fun c => c = 'e' || c = 'E') rest := stop.imp fun c yes => by
      simp only [extendsNumber, Bool.or_assoc]
      simp only [Bool.or_eq_true] at yes ⊢
      exact .inr (.inr yes)
    rw [exponent, List.nil_append, bind_of_ok (takeIf_of_avoids none)]
    rfl
  | @present mark negative sign digits known signed tail =>
    have ends : Avoids isDigit rest := stop.imp fun c yes => by simp [extendsNumber, yes]
    obtain ⟨found, minus, taken⟩ := takeIf_sign signed tail rest
    rw [exponent, List.cons_append, bind_of_ok (takeIf_cons (by simpa using known)),
      List.append_assoc]
    simp only
    rw [bind_of_ok taken, bind_of_ok (takeDigits_append tail.all ends)]
    split
    · exact absurd rfl tail.nonempty
    · simp only [minus]
      rfl

section Number

variable {whole after text rest : List Char} {fraction : Option (List Char)} {power : Option Int}
  {negative : Bool}

theorem parts_append {β : Type} {lenient : Bool} (digits : IsWhole whole)
    (point : Fraction fraction after) (scale : Power power text) (stop : Stops rest)
    (k : List Char → Option (List Char) → Option Int → Reader β) :
    (do k (← wholeDigits lenient) (← fractionDigits lenient) (← exponent lenient))
      (whole ++ (after ++ (text ++ rest))) = k whole fraction power rest := by
  have before := scale.avoids stop
  rw [bind_of_ok (wholeDigits_append digits (point.avoids before)),
    bind_of_ok (fractionDigits_append point before), bind_of_ok (exponent_append scale stop)]

theorem number_of_integer {n : Int} (digits : IsWhole whole) (stop : Stops rest)
    (value : integer? negative whole = some n) :
    number negative (whole ++ rest) = .ok (.integer n, rest) := by
  refine (parts_append digits .absent .absent stop _).trans ?_
  simp only [Option.isNone_none, Bool.and_self, if_pos, value]
  rfl

theorem number_of_float {f : Float} (digits : IsWhole whole)
    (point : Fraction fraction after) (scale : Power power text) (stop : Stops rest)
    (fractional : fraction = none → power = none → integer? negative whole = none)
    (value : float? negative whole (fraction.getD []) (power.getD 0) = some f) :
    number negative (whole ++ (after ++ (text ++ rest))) = .ok (.float f, rest) := by
  have none : (if fraction.isNone && power.isNone then integer? negative whole else none) =
      none := by
    split
    · rename_i absent
      simp only [Bool.and_eq_true, Option.isNone_iff_eq_none] at absent
      exact fractional absent.1 absent.2
    · rfl
  refine (parts_append digits point scale stop _).trans ?_
  simp only [none, value]
  rfl

theorem skipNumber_append (digits : IsWhole whole) (point : Fraction fraction after)
    (scale : Power power text) (stop : Stops rest) :
    skipNumber (whole ++ (after ++ (text ++ rest))) = .ok ((), rest) := by
  have before := scale.avoids stop
  rw [skipNumber, bind_of_ok (discard_of_ok (wholeDigits_append digits (point.avoids before))),
    bind_of_ok (discard_of_ok (fractionDigits_append point before)),
    discard_of_ok (exponent_append scale stop)]

end Number

end Reader

end Productions.Json
