import Productions.Compiled.Basic
import Productions.Proofs.Forests
import Productions.Proofs.Ordered
import Productions.Proofs.Stages
import Productions.Proofs.Subtrees

/-! Field counts and the forests that an expression derives. The least and the greatest count of a
field, told apart up to two, bound the number of its brackets in every forest, and unless a choice
without alternatives leaves an expression with nothing to derive, some forest has the least number
and some forest the greatest. -/
namespace Productions

namespace Expr

/-- The forests an expression derives, with its symbols as leaves. -/
inductive Grows : Expr → List (ParseTree Symbol) → Prop where
  | symbol {s} : Grows (.symbol s) [.leaf s]
  | seqNil : Grows (.seq []) []
  | seqCons {e es f g} (head : Grows e f) (tail : Grows (.seq es) g) :
      Grows (.seq (e :: es)) (f ++ g)
  | choice {e es f} (mem : e ∈ es) (inner : Grows e f) : Grows (.choice es) f
  | repeatNil {e} : Grows (.repeated e) []
  | repeatCons {e f g} (head : Grows e f) (tail : Grows (.repeated e) g) :
      Grows (.repeated e) (f ++ g)
  | prec {v a e f} (inner : Grows e f) : Grows (.prec v a e) [.around (.prec v a) f]
  | aliased {e v n f} (inner : Grows e f) : Grows (.aliased e v n) [.around (.aliased v n) f]
  | field {n e f} (inner : Grows e f) : Grows (.field n e) [.around (.field n) f]

end Expr

namespace ParseTree

variable {α : Type}

mutual

def brackets (b : Bracket) : ParseTree α → Nat
  | leaf _ => 0
  | around b' inner => (if b' = b then 1 else 0) + bracketsAll b inner
  | token _ inner => bracketsAll b inner

def bracketsAll (b : Bracket) : List (ParseTree α) → Nat
  | [] => 0
  | t :: ts => brackets b t + bracketsAll b ts

end

variable {b : Bracket}

@[simp] theorem bracketsAll_append (f g : List (ParseTree α)) :
    bracketsAll b (f ++ g) = bracketsAll b f + bracketsAll b g := by
  induction f with
  | nil => simp [bracketsAll]
  | cons t ts ih => rw [List.cons_append, bracketsAll, bracketsAll, ih, Nat.add_assoc]

theorem bracketsAll_around (b' : Bracket) (f : List (ParseTree α)) :
    bracketsAll b [.around b' f] = (if b' = b then 1 else 0) + bracketsAll b f := by
  rw [bracketsAll, brackets, bracketsAll, Nat.add_zero]

end ParseTree

/-- The numbers of brackets of a field in the forests of an expression. -/
def Expr.occurrences (name : String) (e : Expr) : Set Nat :=
  {n | ∃ forest, e.Grows forest ∧ ParseTree.bracketsAll (.field name) forest = n}

structure FieldCount.Additive (part : FieldCount → Nat) : Prop where
  zero : part .zero = 0
  one (types : OrderedSet NodeType) : part ⟨1, 1, types⟩ = 1
  add (a b : FieldCount) : part (a.add b) = Min.min 2 (part a + part b)

theorem FieldCount.additive_min : Additive FieldCount.min := ⟨rfl, fun _ => rfl, fun _ _ => rfl⟩

theorem FieldCount.additive_max : Additive FieldCount.max := ⟨rfl, fun _ => rfl, fun _ _ => rfl⟩

namespace FieldCounts

variable {part : FieldCount → Nat} {name : String}

/-- A number of the count of a field, of which no more than two is told apart. -/
def upToTwo (part : FieldCount → Nat) (name : String) (m : FieldCounts) : Nat :=
  min 2 (part (m.getD name .zero))

theorem upToTwo_le (m : FieldCounts) : m.upToTwo part name ≤ 2 := Nat.min_le_left _ _

theorem upToTwo_empty (additive : FieldCount.Additive part) : upToTwo part name ∅ = 0 := by
  have zero := additive.zero
  simp only [upToTwo, OrderedMap.getD, OrderedMap.get?_empty, Option.getD_none]
  omega

theorem get?_sum (a b : FieldCounts) : (a.sum b).get? name
    = (b.get? name).elim (a.get? name) fun c => some ((a.getD name .zero).add c) :=
  OrderedMap.get?_foldl_update
    (fun _ (known : Option FieldCount) c => (known.getD .zero).add c) b.nodup

theorem upToTwo_sum (additive : FieldCount.Additive part) (a b : FieldCounts) :
    (a.sum b).upToTwo part name = min 2 (a.upToTwo part name + b.upToTwo part name) := by
  simp only [upToTwo, OrderedMap.getD, get?_sum]
  cases b.get? name with
  | none =>
    have zero := additive.zero
    simp only [Option.elim_none, Option.getD_none]
    omega
  | some c =>
    have grown := additive.add ((a.get? name).getD .zero) c
    simp only [Option.elim_some, Option.getD_some]
    omega

theorem upToTwo_foldl_sum (additive : FieldCount.Additive part) (as : List FieldCounts)
    (m : FieldCounts) : (as.foldl sum m).upToTwo part name
      = min 2 (m.upToTwo part name + (as.map (upToTwo part name)).sum) := by
  induction as generalizing m with
  | nil =>
    have bound : m.upToTwo part name ≤ 2 := upToTwo_le m
    simp only [List.foldl_nil, List.map_nil, List.sum_nil]
    omega
  | cons a as ih =>
    rw [List.foldl_cons, ih, upToTwo_sum additive, List.map_cons, List.sum_cons]
    omega

theorem le_least_iff {as : List FieldCounts} (ne : as ≠ []) {n : Nat} :
    n ≤ least name as ↔ ∀ a ∈ as, n ≤ (a.getD name .zero).min := by
  obtain ⟨a, as, rfl⟩ := List.exists_cons_of_ne_nil ne
  have smallest : ((a :: as).map fun m => (m.getD name .zero).min).min?
      = some (least name (a :: as)) := List.min?_cons'
  rw [List.le_min?_iff smallest, List.forall_mem_map]

theorem get?_join (alternatives : List FieldCounts) (total a : FieldCounts) :
    (join alternatives total a).get? name = (a.get? name).elim (total.get? name) fun c =>
      some ⟨least name alternatives, max (total.getD name .zero).max c.max,
        (total.getD name .zero).types.union c.types⟩ :=
  OrderedMap.get?_foldl_update (fun name (known : Option FieldCount) (c : FieldCount) =>
    ⟨least name alternatives, max (known.getD .zero).max c.max,
      (known.getD .zero).types.union c.types⟩) a.nodup

theorem min_foldl_join (alternatives as : List FieldCounts) (total : FieldCounts) :
    ((as.foldl (join alternatives) total).getD name .zero).min = least name alternatives ∨
      (∀ a ∈ as, a.get? name = none) ∧ ((as.foldl (join alternatives) total).getD name .zero).min
        = (total.getD name .zero).min := by
  induction as generalizing total with
  | nil => exact .inr ⟨by simp, rfl⟩
  | cons a as ih =>
    rw [List.foldl_cons]
    rcases ih (join alternatives total a) with joined | ⟨absent, same⟩
    · exact .inl joined
    · rw [same, OrderedMap.getD, get?_join]
      cases found : a.get? name with
      | none => exact .inr ⟨List.forall_mem_cons.2 ⟨found, absent⟩, rfl⟩
      | some c => exact .inl rfl

theorem min_choice (as : List FieldCounts) :
    ((choice as).getD name .zero).min = least name as := by
  rcases min_foldl_join as as ∅ with joined | ⟨absent, same⟩
  · exact joined
  · rw [choice, same]
    by_cases ne : as = []
    · rw [ne]
      rfl
    · obtain ⟨a, mem⟩ := List.exists_mem_of_ne_nil as ne
      have bound : least name as ≤ (a.getD name .zero).min :=
        (le_least_iff ne).1 le_rfl a mem
      rw [OrderedMap.getD, absent a mem] at bound
      exact (Nat.le_zero.1 bound).symm

theorem max_join (alternatives : List FieldCounts) (total a : FieldCounts) :
    ((join alternatives total a).getD name .zero).max
      = max (total.getD name .zero).max (a.getD name .zero).max := by
  simp only [OrderedMap.getD, get?_join]
  cases a.get? name with
  | none => exact (Nat.max_zero _).symm
  | some c => rfl

theorem max_foldl_join_le {alternatives as : List FieldCounts} {total : FieldCounts} {n : Nat} :
    ((as.foldl (join alternatives) total).getD name .zero).max ≤ n
      ↔ (total.getD name .zero).max ≤ n ∧ ∀ a ∈ as, (a.getD name .zero).max ≤ n := by
  induction as generalizing total with
  | nil => simp
  | cons a as ih =>
    rw [List.foldl_cons, ih, max_join, Nat.max_le, List.forall_mem_cons, and_assoc]

theorem max_choice_le {as : List FieldCounts} {n : Nat} :
    ((choice as).getD name .zero).max ≤ n ↔ ∀ a ∈ as, (a.getD name .zero).max ≤ n := by
  rw [choice, max_foldl_join_le]
  exact and_iff_right (Nat.zero_le n)

end FieldCounts

namespace NormalForm

variable (g : NormalForm) (part : FieldCount → Nat) (name : String)

def fieldNumber (e : Expr) : Nat := (g.fieldCounts e).upToTwo part name

variable {g part name}

theorem countsOfEach_eq_map (es : List Expr) : g.countsOfEach es = es.map g.fieldCounts := by
  induction es with
  | nil => rw [countsOfEach, List.map_nil]
  | cons e es ih => rw [countsOfEach, ih, List.map_cons]

section Additive

variable (additive : FieldCount.Additive part)

include additive

theorem fieldNumber_symbol (s : Symbol) : g.fieldNumber part name (.symbol s) = 0 := by
  rw [fieldNumber, fieldCounts, FieldCounts.upToTwo_empty additive]

theorem fieldNumber_seq (es : List Expr) : g.fieldNumber part name (.seq es)
    = min 2 ((es.map (g.fieldNumber part name)).sum) := by
  rw [fieldNumber, fieldCounts, sequenceCounts, countsOfEach_eq_map,
    FieldCounts.upToTwo_foldl_sum additive, FieldCounts.upToTwo_empty additive, Nat.zero_add,
    List.map_map]
  rfl

theorem fieldNumber_seq_cons (e : Expr) (es : List Expr) : g.fieldNumber part name (.seq (e :: es))
    = min 2 (g.fieldNumber part name e + g.fieldNumber part name (.seq es)) := by
  rw [fieldNumber_seq additive, fieldNumber_seq additive, List.map_cons, List.sum_cons]
  omega

theorem fieldNumber_field (n : String) (e : Expr) : g.fieldNumber part name (.field n e)
    = min 2 (g.fieldNumber part name e + if n = name then 1 else 0) := by
  simp only [fieldNumber, fieldCounts, FieldCounts.upToTwo, OrderedMap.getD, OrderedMap.get?_insert]
  by_cases same : name = n
  · subst same
    rw [if_pos rfl, if_pos rfl, Option.getD_some, additive.add, additive.one]
    omega
  · rw [if_neg same, if_neg (Ne.symm same)]
    omega

end Additive

theorem fieldNumber_prec (v : Precedence) (a : Assoc) (e : Expr) :
    g.fieldNumber part name (.prec v a e) = g.fieldNumber part name e := by
  rw [fieldNumber, fieldCounts, fieldNumber]

theorem fieldNumber_aliased (e : Expr) (v : String) (named : Bool) :
    g.fieldNumber part name (.aliased e v named) = g.fieldNumber part name e := by
  rw [fieldNumber, fieldCounts, fieldNumber]

theorem least_repeated (e : Expr) : g.fieldNumber FieldCount.min name (.repeated e) = 0 := by
  simp only [fieldNumber, fieldCounts, FieldCounts.upToTwo, OrderedMap.getD,
    OrderedMap.get?_mapValues]
  cases (g.fieldCounts e).get? name <;> rfl

theorem greatest_repeated (e : Expr) :
    g.fieldNumber FieldCount.max name (.repeated e)
      = if 0 < g.fieldNumber FieldCount.max name e then 2 else 0 := by
  have starred (found : Option FieldCount) : min 2 ((found.map FieldCount.star).getD .zero).max
      = if 0 < min 2 (found.getD .zero).max then 2 else 0 := by
    cases found with
    | none => rfl
    | some c =>
      simp only [Option.map_some, Option.getD_some, FieldCount.star]
      split <;> split <;> omega
  simp only [fieldNumber, fieldCounts, FieldCounts.upToTwo, OrderedMap.getD,
    OrderedMap.get?_mapValues]
  exact starred _

theorem le_least_choice {es : List Expr} (ne : es ≠ []) {n : Nat} :
    n ≤ g.fieldNumber FieldCount.min name (.choice es)
      ↔ ∀ e ∈ es, n ≤ g.fieldNumber FieldCount.min name e := by
  have ne' : es.map g.fieldCounts ≠ [] := mt List.map_eq_nil_iff.1 ne
  simp only [fieldNumber, FieldCounts.upToTwo, fieldCounts, countsOfEach_eq_map,
    FieldCounts.min_choice, Nat.le_min, FieldCounts.le_least_iff ne', List.forall_mem_map]
  constructor
  · exact fun h e mem => ⟨h.1, h.2 e mem⟩
  · intro h
    obtain ⟨e, mem⟩ := List.exists_mem_of_ne_nil es ne
    exact ⟨(h e mem).1, fun e mem => (h e mem).2⟩

theorem greatest_choice_le {es : List Expr} {n : Nat} :
    g.fieldNumber FieldCount.max name (.choice es) ≤ n
      ↔ ∀ e ∈ es, g.fieldNumber FieldCount.max name e ≤ n := by
  simp only [fieldNumber, FieldCounts.upToTwo, fieldCounts, countsOfEach_eq_map,
    inf_le_iff, FieldCounts.max_choice_le, List.forall_mem_map]
  by_cases small : 2 ≤ n <;> simp [small]

end NormalForm

open ParseTree (bracketsAll)

namespace Expr

variable {g : NormalForm} {name : String} {e : Expr} {forest : List (ParseTree Symbol)}

open FieldCount (additive_min additive_max)
open NormalForm

theorem Grows.least_le (h : e.Grows forest) :
    g.fieldNumber FieldCount.min name e ≤ bracketsAll (.field name) forest := by
  induction h with
  | symbol => rw [fieldNumber_symbol additive_min]; exact Nat.zero_le _
  | seqNil => rw [fieldNumber_seq additive_min]; exact Nat.zero_le _
  | seqCons _ _ ihe ihs =>
    rw [fieldNumber_seq_cons additive_min, ParseTree.bracketsAll_append]
    omega
  | choice mem _ ih =>
    exact ((le_least_choice (List.ne_nil_of_mem mem)).1 le_rfl _ mem).trans ih
  | repeatNil | repeatCons => rw [least_repeated]; exact Nat.zero_le _
  | prec _ ih | aliased _ ih =>
    simp only [fieldNumber_prec, fieldNumber_aliased, ParseTree.bracketsAll_around]
    omega
  | field _ ih =>
    simp only [fieldNumber_field additive_min, ParseTree.bracketsAll_around, Bracket.field.injEq]
    omega

/-- No forest has more brackets of a field than its greatest count, told apart up to two. -/
theorem Grows.le_greatest (h : e.Grows forest) :
    min 2 (bracketsAll (.field name) forest) ≤ g.fieldNumber FieldCount.max name e := by
  induction h with
  | symbol | seqNil | repeatNil => exact Nat.zero_le _
  | seqCons _ _ ihe ihs =>
    rw [fieldNumber_seq_cons additive_max, ParseTree.bracketsAll_append]
    omega
  | choice mem _ ih => exact ih.trans (greatest_choice_le.1 le_rfl _ mem)
  | @repeatCons e _ _ _ _ ihe ihs =>
    rw [greatest_repeated, ParseTree.bracketsAll_append] at *
    by_cases some : 0 < g.fieldNumber FieldCount.max name e
    · rw [if_pos some]
      omega
    · rw [if_neg some] at ihs ⊢
      omega
  | prec _ ih | aliased _ ih =>
    simpa only [fieldNumber_prec, fieldNumber_aliased, ParseTree.bracketsAll_around, reduceCtorEq,
      if_false, Nat.zero_add] using ih
  | field _ ih =>
    simp only [fieldNumber_field additive_max, ParseTree.bracketsAll_around, Bracket.field.injEq]
    omega

/-- No choice within an expression is without alternatives. -/
def Full (e : Expr) : Prop := ∀ s, Within s e → s ≠ .choice []

theorem Full.child {c : Expr} (full : e.Full) (mem : c ∈ e.children) : c.Full :=
  fun s inner => full s (.child mem inner)

theorem exists_least_choice {es : List Expr} (ne : es ≠ []) : ∃ e ∈ es,
    g.fieldNumber FieldCount.min name e = g.fieldNumber FieldCount.min name (.choice es) := by
  by_contra more
  simp only [not_exists, not_and] at more
  have least := (le_least_choice ne).1 (le_refl (g.fieldNumber FieldCount.min name (.choice es)))
  have above (e : Expr) (mem : e ∈ es) := Nat.lt_of_le_of_ne (least e mem) (Ne.symm (more e mem))
  exact absurd ((le_least_choice ne).2 above) (Nat.not_succ_le_self _)

theorem exists_greatest_choice {es : List Expr} (ne : es ≠ []) : ∃ e ∈ es,
    g.fieldNumber FieldCount.max name e = g.fieldNumber FieldCount.max name (.choice es) := by
  by_contra less
  simp only [not_exists, not_and] at less
  have greatest := greatest_choice_le.1 (le_refl (g.fieldNumber FieldCount.max name (.choice es)))
  have below (e : Expr) (mem : e ∈ es) := Nat.lt_of_le_of_ne (greatest e mem) (less e mem)
  obtain ⟨e, mem⟩ := List.exists_mem_of_ne_nil es ne
  have positive := below e mem
  have bound := greatest_choice_le.2 fun e mem => Nat.le_sub_one_of_lt (below e mem)
  omega

def Attains (g : NormalForm) (part : FieldCount → Nat) (name : String) (e : Expr) : Prop :=
  ∃ forest, e.Grows forest ∧
    min 2 (bracketsAll (.field name) forest) = g.fieldNumber part name e

variable {part : FieldCount → Nat} (g name)

/-- A number that is attained by choices if by their alternatives, and by repetitions, is attained
by every expression. -/
theorem attains_of_full (additive : FieldCount.Additive part)
    (choices : ∀ es : List Expr, es ≠ [] →
      ∃ e ∈ es, g.fieldNumber part name e = g.fieldNumber part name (.choice es))
    (repetitions : ∀ e, Attains g part name e → Attains g part name (.repeated e))
    (full : e.Full) : Attains g part name e := by
  induction e with
  | symbol s => exact ⟨[.leaf s], .symbol, (fieldNumber_symbol additive s).symm⟩
  | seq es ih =>
    replace ih (e) (mem : e ∈ es) := ih e mem (full.child mem)
    clear full
    induction es with
    | nil => exact ⟨[], .seqNil, (fieldNumber_seq additive []).symm⟩
    | cons e es rest =>
      obtain ⟨u, head, number⟩ := ih e (by simp)
      obtain ⟨w, tail, number'⟩ := rest fun e mem => ih e (by simp [mem])
      refine ⟨u ++ w, .seqCons head tail, ?_⟩
      rw [fieldNumber_seq_cons additive, ParseTree.bracketsAll_append]
      omega
  | choice es ih =>
    obtain ⟨e, mem, same⟩ := choices es fun none => full _ .self (congrArg _ none)
    obtain ⟨u, inner, number⟩ := ih e mem (full.child mem)
    exact ⟨u, .choice mem inner, number.trans same⟩
  | repeated e ih => exact repetitions e (ih (full.child (by simp [children])))
  | prec v a e ih =>
    obtain ⟨u, inner, number⟩ := ih (full.child (by simp [children]))
    refine ⟨_, .prec inner, ?_⟩
    simpa [fieldNumber_prec, ParseTree.bracketsAll_around] using number
  | aliased e v n ih =>
    obtain ⟨u, inner, number⟩ := ih (full.child (by simp [children]))
    refine ⟨_, .aliased inner, ?_⟩
    simpa [fieldNumber_aliased, ParseTree.bracketsAll_around] using number
  | field n e ih =>
    obtain ⟨u, inner, number⟩ := ih (full.child (by simp [children]))
    refine ⟨_, .field inner, ?_⟩
    simp only [fieldNumber_field additive, ParseTree.bracketsAll_around, Bracket.field.injEq]
    omega

theorem attains_least (full : e.Full) : Attains g FieldCount.min name e :=
  attains_of_full g name additive_min (fun _ => exists_least_choice)
    (fun e _ => ⟨[], .repeatNil, (least_repeated e).symm⟩) full

theorem attains_greatest (full : e.Full) : Attains g FieldCount.max name e := by
  refine attains_of_full g name additive_max (fun _ => exists_greatest_choice) ?_ full
  rintro e ⟨u, inner, number⟩
  -- two rounds with the field are as many as are told apart
  refine ⟨u ++ (u ++ []), .repeatCons inner (.repeatCons inner .repeatNil), ?_⟩
  rw [greatest_repeated, ParseTree.bracketsAll_append, List.append_nil]
  split <;> omega

/-- Field information that is exact for the forests of an expression. The numbers it tells apart
occur unless some choice has nothing to choose. -/
structure Counted (e : Expr) (fields : OrderedMap String FieldInfo) : Prop where
  absent {name : String} (missing : fields.get? name = none) : ∀ n ∈ e.occurrences name, n = 0
  single {name : String} {info : FieldInfo} (known : fields.get? name = some info)
    (once : info.multiple = false) : ∀ n ∈ e.occurrences name, n ≤ 1
  present {name : String} {info : FieldInfo} (known : fields.get? name = some info)
    (required : info.required = true) : ∀ n ∈ e.occurrences name, 1 ≤ n
  several {name : String} {info : FieldInfo} (full : e.Full)
    (known : fields.get? name = some info) (multiple : info.multiple = true) :
    ∃ n ∈ e.occurrences name, 2 ≤ n
  lacking {name : String} {info : FieldInfo} (full : e.Full)
    (known : fields.get? name = some info) (optional : info.required = false) :
    0 ∈ e.occurrences name

end Expr

namespace NormalForm

variable {g : NormalForm} {name : String} {e : Expr} {info : FieldInfo}

theorem fieldNumber_of_missing (missing : (g.fieldsOf e).get? name = none) :
    g.fieldNumber FieldCount.max name e = 0 := by
  rw [fieldsOf, OrderedMap.get?_mapValues, Option.map_eq_none_iff] at missing
  rw [fieldNumber, FieldCounts.upToTwo, OrderedMap.getD, missing]
  rfl

/-- What is known of a field says how its counts compare with one and two. -/
theorem info_of_known (known : (g.fieldsOf e).get? name = some info) :
    info = ⟨decide (1 < g.fieldNumber FieldCount.max name e),
      decide (0 < g.fieldNumber FieldCount.min name e), info.types⟩ := by
  rw [fieldsOf, OrderedMap.get?_mapValues] at known
  obtain ⟨count, found, rfl⟩ := Option.map_eq_some_iff.1 known
  simp only [fieldNumber, FieldCounts.upToTwo, OrderedMap.getD, found, Option.getD_some,
    FieldCount.info, FieldInfo.mk.injEq, decide_eq_decide, and_true]
  omega

theorem multiple_iff (known : (g.fieldsOf e).get? name = some info) :
    info.multiple = true ↔ 2 ≤ g.fieldNumber FieldCount.max name e := by
  rw [info_of_known known, decide_eq_true_iff]
  rfl

theorem required_iff (known : (g.fieldsOf e).get? name = some info) :
    info.required = true ↔ 1 ≤ g.fieldNumber FieldCount.min name e := by
  rw [info_of_known known, decide_eq_true_iff]
  rfl

theorem counted_fieldsOf (g : NormalForm) (e : Expr) : e.Counted (g.fieldsOf e) where
  absent missing := by
    rintro _ ⟨forest, grows, rfl⟩
    have bound := grows.le_greatest.trans_eq (fieldNumber_of_missing missing)
    omega
  single known once := by
    rintro _ ⟨forest, grows, rfl⟩
    have below := mt (multiple_iff known).2 (ne_true_of_eq_false once)
    have bound := grows.le_greatest.trans_lt (Nat.not_le.1 below)
    omega
  present known required := by
    rintro _ ⟨forest, grows, rfl⟩
    exact ((required_iff known).1 required).trans grows.least_le
  several {name _} full known multiple := by
    obtain ⟨forest, grows, number⟩ := Expr.attains_greatest g name full
    have several := (multiple_iff known).1 multiple
    exact ⟨_, ⟨forest, grows, rfl⟩, by omega⟩
  lacking {name _} full known optional := by
    obtain ⟨forest, grows, number⟩ := Expr.attains_least g name full
    have none := mt (required_iff known).2 (ne_true_of_eq_false optional)
    exact ⟨forest, grows, by omega⟩

end NormalForm

namespace Grammar

theorem Compiles.counted {g : Grammar} {settings : Settings} {start : String}
    {c : CompiledGrammar} (h : g.Compiles settings start c) {v : Variable} (mem : v ∈ c.vars) :
    v.body.Counted v.fields := by
  rw [h.result] at mem
  obtain ⟨v, -, rfl⟩ := List.mem_map.1 mem
  exact NormalForm.counted_fieldsOf _ v.body

/-- The fields of every expression are exact, and these are the fields of compiled variables. -/
theorem fields_counted (g : Grammar) (settings : Settings) :
    (∀ (n : NormalForm) (e : Expr), e.Counted (n.fieldsOf e)) ∧
      ∀ c, g.compile settings = .ok c → ∀ v ∈ c.vars, v.body.Counted v.fields := by
  refine ⟨NormalForm.counted_fieldsOf, fun c compiled v mem => ?_⟩
  obtain ⟨start, h⟩ := compile_eq_ok compiled
  exact h.counted mem

/-- Calls with any number of arguments, each with a field of its own, and an optional block. -/
def blockCalls : Grammar where
  name := "calls"
  rules := [
    ⟨"call", .seq [.field "function" (.symbol "name"), .terminal (.literal "("),
      .repeated (.field "argument" (.symbol "name")) .zeroOrMore, .terminal (.literal ")"),
      .optional (.field "block" (.terminal (.literal "{}")))], false⟩,
    ⟨"name", .terminal (.literal "n"), false⟩]
  extras := []
  precedences := []
  conflicts := []
  externals := []
  inlined := []
  supertypes := []
  word := none

theorem fields_counted_blockCalls : ∃ c, blockCalls.compile .default = .ok c
    ∧ (∀ v ∈ c.vars, v.body.Counted v.fields)
    ∧ (c.vars.head?.map fun v => v.fields.entries.map fun e =>
        (e.1, e.2.multiple, e.2.required))
      = some [("function", false, true), ("argument", true, false), ("block", false, false)] := by
  obtain ⟨c, compiled, fields⟩ : ∃ c, blockCalls.compile .default = .ok c
      ∧ (c.vars.head?.map fun v => v.fields.entries.map fun e =>
          (e.1, e.2.multiple, e.2.required))
        = some [("function", false, true), ("argument", true, false), ("block", false, false)] :=
    exists_ok_of_toOption_map (by cbv)
  exact ⟨c, compiled, (fields_counted blockCalls .default).2 c compiled, fields⟩

end Grammar

end Productions
