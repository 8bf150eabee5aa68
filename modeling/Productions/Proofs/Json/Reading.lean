import Mathlib.Data.List.Forall2
import Mathlib.Data.List.TakeWhile
import Mathlib.Tactic.Common
import Productions.Proofs.Json.Scalars

/-! Readers of values take exactly the texts of a value. A value that is passed over may have a
loose text. The loops over items and members need as many rounds as the text has characters, and so
does the recursion that passes over containers. -/
namespace Productions.Json

theorem blanks_nil : Blanks [] := fun _ h => absurd h List.not_mem_nil

theorem Blanks.isBlank {blanks : List Char} (h : Blanks blanks) :
    ∀ c ∈ blanks, Reader.isBlank c = true := by
  intro c hc
  rcases h c hc with rfl | rfl | rfl | rfl <;> rfl

theorem Blanks.stops {blanks rest : List Char} (h : Blanks blanks) (stop : Stops rest) :
    Stops (blanks ++ rest) := by
  cases blanks with
  | nil => exact stop
  | cons c blanks =>
    rintro d ⟨⟩
    rcases h c List.mem_cons_self with rfl | rfl | rfl | rfl <;> rfl

theorem stops_cons {c : Char} {rest : List Char} (h : extendsNumber c = false) :
    Stops (c :: rest) := by
  rintro d ⟨⟩
  exact h

inductive Opens : List Char → Prop where
  | first {c text} (solid : Reader.isBlank c = false) (inside : c ≠ ']') : Opens (c :: text)

namespace Reader

section Parts

variable {α β : Type} {d : Reader α} {a : α} {k : Char → Reader α} {c : Char}
  {blanks text rest : List Char}

theorem peek_append (h : Blanks blanks) (solid : isBlank c = false) :
    peek (blanks ++ c :: rest) = .ok (some c, c :: rest) := by
  have drops : (blanks ++ c :: rest).dropWhile isBlank = c :: rest := by
    rw [List.dropWhile_append_of_pos h.isBlank, List.dropWhile_cons, if_neg (by simp [solid])]
  change Except.ok (((blanks ++ c :: rest).dropWhile isBlank).head?, _) = _
  rw [drops]
  rfl

theorem peek_blanks (h : Blanks blanks) : peek blanks = .ok (none, []) := by
  have drops : blanks.dropWhile isBlank = [] := List.dropWhile_eq_nil_iff.2 h.isBlank
  change Except.ok ((blanks.dropWhile isBlank).head?, _) = _
  rw [drops]
  rfl

theorem peekValue_append (h : Blanks blanks) (solid : isBlank c = false) :
    peekValue (blanks ++ c :: rest) = .ok (c, c :: rest) := by
  rw [peekValue, bind_of_ok (peek_append h solid)]
  rfl

theorem colon_append (h : Blanks blanks) : colon (blanks ++ ':' :: rest) = .ok ((), rest) := by
  rw [colon, bind_of_ok (peek_append h rfl)]
  rfl

theorem close_cons (solid : isBlank c = false) : close c (c :: rest) = .ok ((), rest) := by
  have next : peek (c :: rest) = .ok (some c, c :: rest) := peek_append blanks_nil solid
  rw [close, bind_of_ok next]
  simp only [if_pos]
  rfl

/-- A reader takes a text and the blanks before it. -/
def Reads (d : Reader α) (a : α) (text : List Char) : Prop :=
  ∀ blanks rest, Blanks blanks → Stops rest → d (blanks ++ (text ++ rest)) = .ok (a, rest)

theorem reads_of_first (solid : isBlank c = false)
    (h : ∀ rest, Stops rest → k c (c :: (text ++ rest)) = .ok (a, rest)) :
    Reads (peekValue >>= k) a (c :: text) := by
  intro blanks rest before stop
  rw [List.cons_append, bind_of_ok (peekValue_append before solid)]
  exact h rest stop

theorem Reads.map (h : Reads d a text) (g : α → β) : Reads (g <$> d) (g a) text :=
  fun blanks rest before stop => map_of_ok (h blanks rest before stop)

theorem Reads.bind_pure (h : Reads d a text) (g : α → β) :
    Reads (do return g (← d)) (g a) text := by
  intro blanks rest before stop
  rw [bind_of_ok (h blanks rest before stop)]
  rfl

theorem Reads.nil_append (h : Reads d a text) (stop : Stops rest) :
    d (text ++ rest) = .ok (a, rest) :=
  h [] rest blanks_nil stop

def ReadsAfter (d : Reader α) (a : α) (text : List Char) : Prop :=
  ∀ before after rest, Blanks before → Blanks after → Stops rest →
    d (before ++ ':' :: (after ++ (text ++ rest))) = .ok (a, rest)

theorem Reads.after_colon (h : Reads d a text) : ReadsAfter (do colon; d) a text := by
  intro before after rest left right stop
  rw [bind_of_ok (colon_append left)]
  exact h after rest right stop

theorem ReadsAfter.bind_pure (h : ReadsAfter d a text) (g : α → β) :
    ReadsAfter (do return g (← d)) (g a) text := by
  intro before after rest left right stop
  rw [bind_of_ok (h before after rest left right stop)]
  rfl

end Parts

end Reader

namespace Listed

variable {α β : Type} {item : α → List Char → Prop} {first : Bool} {as : List α}
  {text rest : List Char}

theorem stops (h : Listed item false as text) (stop : Stops rest) : Stops (text ++ rest) := by
  cases h with
  | nil => exact stop
  | cons before =>
    cases before with
    | comma left right =>
      simp only [List.append_assoc, List.cons_append]
      exact left.stops (stops_cons rfl)

theorem length_le (h : Listed item first as text) (some : ∀ a t, item a t → t ≠ []) :
    as.length ≤ text.length := by
  induction h with
  | nil => exact Nat.le_refl 0
  | cons before head _ ih =>
    have := List.length_pos_iff.2 (some _ _ head)
    simp only [List.length_cons, List.length_append]
    omega

theorem map {item' : β → List Char → Prop} {f : α → β} (h : Listed item first as text)
    (step : ∀ a ∈ as, ∀ t, t.length ≤ text.length → item a t → item' (f a) t) :
    Listed item' first (as.map f) text := by
  induction h with
  | nil => exact .nil
  | @cons first a as gap text more before head tail ih =>
    refine .cons before (step a List.mem_cons_self _ (by simp; omega) head) (ih ?_)
    exact fun b hb t short => step b (List.mem_cons_of_mem a hb) t (by simp; omega)

theorem imp {item' : α → List Char → Prop} (h : Listed item first as text)
    (step : ∀ a ∈ as, ∀ t, t.length ≤ text.length → item a t → item' a t) :
    Listed item' first as text := by
  have mapped := h.map (f := id) step
  rwa [List.map_id] at mapped

theorem forall₂ {item' : β → List Char → Prop} {shows : β → α → Prop} {bs : List β}
    (h : Listed item first as text) (shown : List.Forall₂ shows bs as)
    (step : ∀ {b a t}, shows b a → a ∈ as → t.length ≤ text.length → item a t → item' b t) :
    Listed item' first bs text := by
  induction h generalizing bs with
  | nil =>
    cases shown
    exact .nil
  | cons before head _ ih =>
    cases shown with
    | cons first more =>
      refine .cons before (step first List.mem_cons_self (by simp; omega) head) (ih more ?_)
      exact fun hs ha short => step hs (List.mem_cons_of_mem _ ha) (by simp; omega)

end Listed

namespace Member

variable {α : Type} {strict : Bool} {value value' : String × α → List Char → Prop} {m : String × α}
  {text : List Char}

theorem ne_nil (h : Member strict value m text) : text ≠ [] := by
  cases h
  simp

theorem imp (h : Member strict value m text)
    (step : ∀ t, t.length ≤ text.length → value m t → value' m t) :
    Member strict value' m text := by
  cases h with
  | pair quotes left right v =>
    refine .pair quotes left right (step _ ?_ v)
    simp only [List.length_append, List.length_cons]
    omega

/-- The texts of members are not longer than the text around them. -/
theorem within {first : Bool} {ms : List (String × α)} {bound : ℕ}
    (h : Listed (Member strict value) first ms text) (room : text.length ≤ bound) :
    Listed (Member strict fun m t => value m t ∧ t.length ≤ bound) first ms text :=
  h.imp fun _ _ _ short member => member.imp fun _ short' v => ⟨v, by omega⟩

end Member

namespace Reader

section Items

variable {α : Type} {item : Reader α} {bound : ℕ} {first : Bool} {as : List α}
  {text blanks rest : List Char}

theorem items_comma (before : Blanks blanks) :
    items item (bound + 1) false (blanks ++ ',' :: rest) =
      (do
        let c ← peekValue
        if c = ']' then throw Fault.syntaxError
        else do
          let a ← item
          return a :: (← items item bound false)) rest := by
  rw [items, bind_of_ok (peek_append before rfl)]
  rfl

theorem items_append (h : Listed (fun a t => Opens t ∧ Reads item a t) first as text)
    (room : as.length < bound) (before : Blanks blanks) :
    items item bound first (text ++ (blanks ++ ']' :: rest)) = .ok (as, ']' :: rest) := by
  have stop : Stops (blanks ++ ']' :: rest) := before.stops (stops_cons rfl)
  induction h generalizing bound with
  | nil =>
    obtain ⟨bound, rfl⟩ := Nat.exists_eq_succ_of_ne_zero (Nat.ne_zero_of_lt room)
    rw [items, List.nil_append, bind_of_ok (peek_append before rfl)]
    rfl
  | @cons first a as gap text more gaps head tail ih =>
    obtain ⟨bound, rfl⟩ := Nat.exists_eq_succ_of_ne_zero (Nat.ne_zero_of_lt room)
    have next := ih (Nat.lt_of_succ_lt_succ room)
    have taken := head.2.nil_append (tail.stops stop)
    obtain ⟨⟨solid, inside⟩, -⟩ := head
    simp only [List.append_assoc, List.cons_append] at taken ⊢
    cases gaps with
    | start blank =>
      rw [items, bind_of_ok (peek_append blank solid)]
      simp only [Bool.not_true, Bool.false_eq_true, if_false]
      rw [bind_of_ok taken, bind_of_ok next]
      rfl
    | comma left right =>
      rw [List.append_assoc, List.cons_append, items_comma left,
        bind_of_ok (peekValue_append right solid), if_neg inside, bind_of_ok taken, bind_of_ok next]
      rfl

theorem arrayOf_append (h : Listed (fun a t => Opens t ∧ Reads item a t) true as text)
    (room : as.length < bound) (before : Blanks blanks) :
    arrayOf bound item ('[' :: (text ++ (blanks ++ ']' :: rest))) = .ok (as, rest) := by
  rw [arrayOf, bind_of_ok (skipOne_cons _ _), bind_of_ok (items_append h room before),
    bind_of_ok (close_cons rfl)]
  rfl

end Items

section Members

variable {σ α : Type} {member : σ → String → Reader σ} {bound : ℕ} {first : Bool} {key : String}
  {ms : List (String × α)} {value : String × α → List Char → Prop} {s : σ}
  {text gap name blanks rest : List Char}

/-- Where a key has to come next. -/
theorem key?_quotes (before : Blanks blanks) (quotes : Quotes true key name) (rest : List Char) :
    (do
      let c ← peekValue
      if c = '"' then do
        skipOne
        return some (← stringRest true)
      else throw Fault.syntaxError : Reader (Option String)) (blanks ++ (name ++ rest)) =
        .ok (some key, rest) := by
  cases quotes with
  | quoted spells =>
    have read := stringRest_of_spells spells rest
    simp only [List.cons_append, List.append_assoc, List.nil_append]
    rw [bind_of_ok (peekValue_append before rfl), if_pos rfl, bind_of_ok (skipOne_cons _ _),
      bind_of_ok read]
    rfl

theorem key?_append (before : Gap first gap) (quotes : Quotes true key name) :
    key? first (gap ++ (name ++ rest)) = .ok (some key, rest) := by
  cases before with
  | start blank =>
    have next := key?_quotes blanks_nil quotes rest
    cases quotes
    rw [key?, List.cons_append, bind_of_ok (peek_append blank rfl)]
    exact next
  | comma left right =>
    rw [List.append_assoc, List.cons_append, key?, bind_of_ok (peek_append left rfl)]
    exact key?_quotes right quotes rest

theorem key?_close (before : Blanks blanks) :
    key? first (blanks ++ '\x7d' :: rest) = .ok (none, '\x7d' :: rest) := by
  rw [key?, bind_of_ok (peek_append before rfl)]
  rfl

/-- The members are read in their order. What holds of the state and the members that are left is
kept by every member. -/
theorem members_append (inv : σ → List (String × α) → Prop)
    (step : ∀ {s m ms t}, inv s (m :: ms) → value m t →
      ∃ s', inv s' ms ∧ ReadsAfter (member s m.1) s' t)
    (h : Listed (Member true value) first ms text) (start : inv s ms) (room : ms.length < bound)
    (before : Blanks blanks) (rest : List Char) :
    ∃ s', inv s' [] ∧
      members member bound first s (text ++ (blanks ++ '\x7d' :: rest)) =
        .ok (s', '\x7d' :: rest) := by
  have stop : Stops (blanks ++ '\x7d' :: rest) := before.stops (stops_cons rfl)
  induction h generalizing bound s with
  | nil =>
    obtain ⟨bound, rfl⟩ := Nat.exists_eq_succ_of_ne_zero (Nat.ne_zero_of_lt room)
    refine ⟨s, start, ?_⟩
    rw [members, List.nil_append, bind_of_ok (key?_close before)]
    rfl
  | cons gaps head tail ih =>
    obtain ⟨bound, rfl⟩ := Nat.exists_eq_succ_of_ne_zero (Nat.ne_zero_of_lt room)
    cases head with
    | pair quotes left right v =>
      obtain ⟨s', kept, reads⟩ := step start v
      obtain ⟨s'', done, rest⟩ := ih kept (Nat.lt_of_succ_lt_succ room)
      refine ⟨s'', done, ?_⟩
      simp only [List.append_assoc, List.cons_append]
      rw [members, bind_of_ok (key?_append gaps quotes)]
      simp only
      rw [bind_of_ok (reads _ _ _ left right (tail.stops stop)), rest]

theorem objectOf_append (inv : σ → List (String × α) → Prop)
    (step : ∀ {s m ms t}, inv s (m :: ms) → value m t →
      ∃ s', inv s' ms ∧ ReadsAfter (member s m.1) s' t)
    (h : Listed (Member true value) true ms text) (start : inv s ms) (room : ms.length < bound)
    (before : Blanks blanks) (rest : List Char) :
    ∃ s', inv s' [] ∧
      objectOf bound s member ('\x7b' :: (text ++ (blanks ++ '\x7d' :: rest))) = .ok (s', rest) := by
  obtain ⟨s', done, read⟩ := members_append inv step h start room before rest
  refine ⟨s', done, ?_⟩
  rw [objectOf, bind_of_ok (skipOne_cons _ _), bind_of_ok read, bind_of_ok (close_cons rfl)]
  rfl

/-- Where a member that is passed over has to come next. -/
theorem skipMember_quotes {strict : Bool} {inner : Reader Unit} {k : Unit → Reader Unit}
    {before after more : List Char} (blank : Blanks blanks) (quotes : Quotes strict key name)
    (left : Blanks before) (right : Blanks after) (read : Reads inner () text)
    (stop : Stops more) :
    (do
      let c ← peekValue
      if c = '"' then do
        let r ← skipMember inner
        k r
      else throw Fault.syntaxError : Reader Unit)
        (blanks ++ (name ++ (before ++ ':' :: (after ++ (text ++ more))))) = k () more := by
  cases quotes with
  | @quoted spelled spells =>
    obtain ⟨s, passed⟩ :=
      stringRest_false_of_spells spells (before ++ ':' :: (after ++ (text ++ more)))
    have taken : skipMember inner
        ('"' :: (spelled ++ '"' :: (before ++ ':' :: (after ++ (text ++ more))))) =
          .ok ((), more) := by
      rw [skipMember, bind_of_ok (skipOne_cons _ _), bind_of_ok (discard_of_ok passed)]
      exact read.after_colon before after more left right stop
    simp only [List.cons_append, List.append_assoc, List.nil_append]
    rw [bind_of_ok (peekValue_append blank rfl), if_pos rfl, bind_of_ok taken]

theorem skipMembers_append {strict : Bool} {inner : Reader Unit}
    (h : Listed (Member strict fun _ t => Reads inner () t) first ms text) (room : ms.length < bound)
    (before : Blanks blanks) :
    skipMembers inner bound first (text ++ (blanks ++ '\x7d' :: rest)) =
      .ok ((), '\x7d' :: rest) := by
  have stop : Stops (blanks ++ '\x7d' :: rest) := before.stops (stops_cons rfl)
  induction h generalizing bound with
  | nil =>
    obtain ⟨bound, rfl⟩ := Nat.exists_eq_succ_of_ne_zero (Nat.ne_zero_of_lt room)
    rw [skipMembers, List.nil_append, bind_of_ok (peek_append before rfl)]
    rfl
  | cons gaps head tail ih =>
    obtain ⟨bound, rfl⟩ := Nat.exists_eq_succ_of_ne_zero (Nat.ne_zero_of_lt room)
    have next := ih (Nat.lt_of_succ_lt_succ room)
    cases head with
    | pair quotes left right read =>
      simp only [List.append_assoc, List.cons_append]
      cases gaps with
      | start blank =>
        have first := skipMember_quotes (k := fun _ => skipMembers inner bound false) blanks_nil
          quotes left right read (tail.stops stop)
        cases quotes
        rw [skipMembers, List.cons_append, bind_of_ok (peek_append blank rfl)]
        exact first.trans next
      | comma blank blank' =>
        rw [List.append_assoc, List.cons_append, skipMembers, bind_of_ok (peek_append blank rfl)]
        exact (skipMember_quotes (k := fun _ => skipMembers inner bound false) blank'
          quotes left right read (tail.stops stop)).trans next

end Members

theorem ne_of_isDigit {c d : Char} (h : isDigit c = true) (hd : isDigit d = false) : c ≠ d := by
  rintro rfl
  rw [h] at hd
  contradiction

theorem solid_of_isDigit {c : Char} (h : isDigit c = true) : isBlank c = false := by
  simp only [isBlank, Bool.or_eq_false_iff, decide_eq_false_iff_not]
  exact ⟨⟨⟨ne_of_isDigit h rfl, ne_of_isDigit h rfl⟩, ne_of_isDigit h rfl⟩, ne_of_isDigit h rfl⟩

theorem scalar_digit {c : Char} (h : isDigit c = true) : scalar c = number false := by
  rw [scalar, if_neg (ne_of_isDigit h rfl), if_neg (ne_of_isDigit h rfl),
    if_neg (ne_of_isDigit h rfl), if_neg (ne_of_isDigit h rfl), if_pos h]

end Reader

theorem IsTail.exists_cons {digits : List Char} (h : IsTail digits) :
    ∃ c more, digits = c :: more ∧ Reader.isDigit c = true := by
  obtain ⟨c, more, rfl⟩ := List.exists_cons_of_ne_nil h.nonempty
  exact ⟨c, more, rfl, h.all c List.mem_cons_self⟩

theorem opens_digit {c : Char} {text : List Char} (h : Reader.isDigit c = true) :
    Opens (c :: text) :=
  .first (Reader.solid_of_isDigit h) (Reader.ne_of_isDigit h rfl)

theorem Quotes.opens {strict : Bool} {s : String} {text : List Char} (h : Quotes strict s text) :
    Opens text := by
  cases h
  exact .first rfl (by decide)

theorem Prints.opens {strict : Bool} {c : Content} {text : List Char} (h : Prints strict c text) :
    Opens text := by
  cases h with
  | null | true | false | array | object => exact .first rfl (by decide)
  | string h => exact h.opens
  | integer h =>
    cases h with
    | natural whole =>
      obtain ⟨c, more, rfl, digit⟩ := whole.toIsTail.exists_cons
      exact opens_digit digit
    | negative => exact .first rfl (by decide)
  | float h =>
    cases h with
    | @number negative _ _ _ _ _ whole =>
      obtain ⟨c, more, rfl, digit⟩ := whole.toIsTail.exists_cons
      cases negative with
      | false => exact opens_digit digit
      | true => exact .first rfl (by decide)

theorem Opens.ne_nil {text : List Char} (h : Opens text) : text ≠ [] := by
  cases h
  exact List.cons_ne_nil _ _

namespace Reader

inductive IsScalar (c : Content) : List Char → Prop where
  | first {d text} (solid : isBlank d = false) (array : d ≠ '[') (object : d ≠ '\x7b')
      (read : ∀ rest, Stops rest → scalar d (d :: (text ++ rest)) = .ok (c, rest)) :
      IsScalar c (d :: text)

theorem isScalar_null : IsScalar .null ['n', 'u', 'l', 'l'] :=
  .first rfl (by decide) (by decide) fun _ _ => rfl

theorem isScalar_true : IsScalar (.bool true) ['t', 'r', 'u', 'e'] :=
  .first rfl (by decide) (by decide) fun _ _ => rfl

theorem isScalar_false : IsScalar (.bool false) ['f', 'a', 'l', 's', 'e'] :=
  .first rfl (by decide) (by decide) fun _ _ => rfl

theorem isScalar_string {s : String} {text : List Char} (h : Quotes true s text) :
    IsScalar (.string s) text := by
  cases h with
  | quoted spells =>
    refine .first rfl (by decide) (by decide) fun rest _ => ?_
    simp only [List.append_assoc, List.cons_append, List.nil_append]
    change (do skipOne; return .string (← stringRest true) : Reader Content) _ = _
    rw [bind_of_ok (skipOne_cons _ _), bind_of_ok (stringRest_of_spells spells rest)]
    rfl

theorem isScalar_number {c : Content} {whole : List Char} (negative : Bool) (text : List Char)
    (digits : IsWhole whole)
    (read : ∀ rest, Stops rest → number negative (whole ++ (text ++ rest)) = .ok (c, rest)) :
    IsScalar c (signText negative ++ (whole ++ text)) := by
  cases negative with
  | true =>
    refine .first rfl (by decide) (by decide) fun rest stop => ?_
    have taken := read rest stop
    rw [← List.append_assoc] at taken
    change (do skipOne; number true : Reader Content) _ = _
    rw [bind_of_ok (skipOne_cons _ _)]
    exact taken
  | false =>
    obtain ⟨d, more, rfl, digit⟩ := digits.toIsTail.exists_cons
    refine .first (solid_of_isDigit digit) (ne_of_isDigit digit rfl) (ne_of_isDigit digit rfl)
      fun rest stop => ?_
    have taken := read rest stop
    rw [← List.append_assoc] at taken
    rw [scalar_digit digit]
    exact taken

theorem isScalar_integer {n : Int} {text : List Char} (h : Integer n text) :
    IsScalar (.integer n) text := by
  cases h with
  | natural whole small =>
    have value : integer? false text = some (digitsValue text : Int) := by
      rw [integer?, if_neg (by decide), if_pos]
      exact Nat.le_of_lt_succ small
    have scalar := isScalar_number false [] whole fun rest stop =>
      number_of_integer whole stop value
    rwa [List.append_nil] at scalar
  | @negative digits whole sign small =>
    have value : integer? true digits = some (-(digitsValue digits) : Int) := by
      rw [integer?, if_pos rfl, if_pos]
      simpa using ⟨sign, small⟩
    have scalar := isScalar_number true [] whole fun rest stop =>
      number_of_integer whole stop value
    rwa [List.append_nil] at scalar

theorem isScalar_float {f : Float} {text : List Char} (h : Floating true f text) :
    IsScalar (.float f) text := by
  cases h with
  | number digits point scale fractional small =>
    refine isScalar_number _ _ digits fun rest stop => ?_
    obtain ⟨f, value⟩ := Option.isSome_iff_exists.1 (small rfl)
    rw [value, Option.getD_some, List.append_assoc]
    exact number_of_float digits point scale stop fractional value

section Values

variable {bound : ℕ} {c : Content} {text : List Char}

theorem IsScalar.reads {inner : Option (Reader Content)} (h : IsScalar c text) :
    Reads (contentWith bound inner) c text := by
  cases h with
  | first solid array object read =>
    refine reads_of_first solid fun rest stop => ?_
    rw [if_neg array, if_neg object]
    exact read rest stop

theorem IsScalar.reads_content {depth : ℕ} (h : IsScalar c text) :
    Reads (content bound depth) c text := by
  cases depth <;> exact h.reads

theorem isScalar_of_prints (h : Prints true c text) (flat : NestsWithin 0 c) :
    IsScalar c text := by
  cases h with
  | null => exact isScalar_null
  | true => exact isScalar_true
  | false => exact isScalar_false
  | integer h => exact isScalar_integer h
  | float h => exact isScalar_float h
  | string h => exact isScalar_string h
  | array | object => exact absurd flat (by simp [NestsWithin])

theorem contentMember_reads {inner : Reader Content} {found ms : List (String × Content)}
    {m : String × Content} (h : Reads inner m.2 text) :
    ∃ found', found'.reverse ++ ms = found.reverse ++ m :: ms ∧
      ReadsAfter (contentMember inner found m.1) found' text := by
  exact ⟨m :: found, by simp, (h.bind_pure fun c => (m.1, c) :: found).after_colon⟩

/-- A value is read from its text if its containers are not too deep. -/
theorem content_reads {depth : ℕ} (h : Prints true c text) (nests : NestsWithin depth c)
    (room : text.length ≤ bound) : Reads (content bound depth) c text := by
  induction depth generalizing c text with
  | zero => exact (isScalar_of_prints h nests).reads_content
  | succ depth ih =>
    cases c with
    | null | bool | integer | float | string => exact (isScalar_of_prints h trivial).reads_content
    | array items =>
      simp only [NestsWithin] at nests
      cases h with
      | @array _ text blanks listed before =>
        simp only [List.length_cons, List.length_append] at room
        have inner := listed.imp fun a ha t short prints =>
          And.intro prints.opens (ih prints (nests a ha) (by omega))
        have count := listed.length_le fun _ _ h => h.opens.ne_nil
        refine reads_of_first rfl fun rest _ => ?_
        rw [if_pos rfl]
        simp only [List.append_assoc, List.cons_append, List.nil_append]
        rw [bind_of_ok (arrayOf_append inner (by omega) before)]
        rfl
    | object members =>
      simp only [NestsWithin] at nests
      cases h with
      | @object _ text blanks listed before =>
        simp only [List.length_cons, List.length_append] at room
        have inner : Listed (Member true fun m t => Reads (content bound depth) m.2 t) true members
            text :=
          listed.imp fun m hm t short member => member.imp fun t' short' prints =>
            ih prints (nests m hm) (by omega)
        have count := listed.length_le fun _ _ h => h.ne_nil
        have enough : members.length < bound := by omega
        refine reads_of_first rfl fun rest _ => ?_
        rw [if_neg (by decide), if_pos rfl]
        simp only [List.append_assoc, List.cons_append, List.nil_append]
        obtain ⟨found, all, read⟩ := objectOf_append (s := [])
          (fun (found : List _) ms => found.reverse ++ ms = members)
          (fun inv h => by rw [← inv]; exact contentMember_reads h) inner rfl enough before rest
        rw [bind_of_ok read, ← all, List.append_nil]
        rfl

theorem skip_number {whole after text : List Char} {fraction : Option (List Char)}
    {power : Option Int} (negative : Bool) (digits : IsWhole whole) (point : Fraction fraction after)
    (scale : Power power text) (bound fuel : ℕ) :
    Reads (skip bound (fuel + 1)) () (signText negative ++ (whole ++ (after ++ text))) := by
  have passed {rest} (stop : Stops rest) :
      skipNumber (whole ++ (after ++ text) ++ rest) = .ok ((), rest) := by
    simp only [List.append_assoc]
    exact skipNumber_append digits point scale stop
  cases negative with
  | true =>
    refine reads_of_first rfl fun rest stop => ?_
    rw [if_neg (by decide), if_neg (by decide), if_pos rfl, bind_of_ok (skipOne_cons _ _)]
    exact passed stop
  | false =>
    obtain ⟨d, more, rfl, digit⟩ := digits.toIsTail.exists_cons
    refine reads_of_first (solid_of_isDigit digit) fun rest stop => ?_
    rw [if_neg (ne_of_isDigit digit rfl), if_neg (ne_of_isDigit digit rfl),
      if_neg (ne_of_isDigit digit rfl), if_pos digit]
    exact passed stop

/-- A value of any depth is passed over; inside a container less of the text is left. -/
theorem skip_reads {strict : Bool} {fuel : ℕ} (h : Prints strict c text)
    (room : text.length ≤ bound) (enough : text.length ≤ fuel) :
    Reads (skip bound fuel) () text := by
  induction fuel generalizing c text with
  | zero => exact absurd (List.length_eq_zero_iff.1 (Nat.le_zero.1 enough)) h.opens.ne_nil
  | succ fuel ih =>
    cases h with
    | null | true | false => exact reads_of_first rfl fun _ _ => rfl
    | string h =>
      cases h with
      | quoted spells =>
        refine reads_of_first rfl fun rest _ => ?_
        obtain ⟨s, passed⟩ := stringRest_false_of_spells spells rest
        simp only [List.append_assoc, List.cons_append, List.nil_append]
        change (do skipOne; discard (stringRest false) : Reader Unit) _ = _
        rw [bind_of_ok (skipOne_cons _ _), discard_of_ok passed]
    | integer h =>
      cases h with
      | natural whole =>
        have passed := skip_number false whole .absent .absent bound fuel
        rwa [List.append_nil, List.append_nil] at passed
      | negative whole =>
        have passed := skip_number true whole .absent .absent bound fuel
        rwa [List.append_nil, List.append_nil] at passed
    | float h =>
      cases h with
      | number digits point scale => exact skip_number _ digits point scale bound fuel
    | @array items text blanks listed before =>
      simp only [List.length_cons, List.length_append] at room enough
      have inner : Listed (fun u t => Opens t ∧ Reads (skip bound fuel) u t) true
          (items.map fun _ => ()) text :=
        listed.map fun a _ t short prints => ⟨prints.opens, ih prints (by omega) (by omega)⟩
      have count := listed.length_le fun _ _ h => h.opens.ne_nil
      refine reads_of_first rfl fun rest _ => ?_
      rw [if_pos rfl]
      simp only [List.append_assoc, List.cons_append, List.nil_append]
      exact discard_of_ok (arrayOf_append inner (by rw [List.length_map]; omega) before)
    | @object members text blanks listed before =>
      simp only [List.length_cons, List.length_append] at room enough
      have inner : Listed (Member strict fun _ t => Reads (skip bound fuel) () t) true members
          text :=
        listed.imp fun m _ t short member => member.imp fun t' short' prints =>
          ih prints (by omega) (by omega)
      have count := listed.length_le fun _ _ h => h.ne_nil
      have room' : members.length < bound := by omega
      refine reads_of_first rfl fun rest _ => ?_
      rw [if_neg (by decide), if_pos rfl]
      simp only [List.append_assoc, List.cons_append, List.nil_append]
      rw [bind_of_ok (skipOne_cons _ _), bind_of_ok (skipMembers_append inner room' before),
        close_cons rfl]

end Values

end Reader

end Productions.Json
