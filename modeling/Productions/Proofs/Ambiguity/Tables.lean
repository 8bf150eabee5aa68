import Productions.Proofs.Ambiguity.Declared
import Productions.Proofs.Ambiguity.Unfolding

/-! What the tables say. A variable has a table if an alternative is annotated or has a symbol that
stands for the variable. The table settles a pair of alternatives if the first one can be unfolded
to a list that ends, and the second one to a list that begins, with such a symbol. The annotations
around the two decide how. -/
namespace Productions

namespace Expr

def wrappers : Expr → List (Precedence × Assoc)
  | prec value assoc content => (value, assoc) :: wrappers content
  | _ => []

def static? (e : Expr) : Option (Precedence × Assoc) :=
  e.wrappers.find? fun w => w.2 ≠ .dynamic

def staticLevel (e : Expr) : Int := (e.static?.map fun w => Annotation.valueLevel w.1).getD 0

/-- How a complete alternative and one that could go on are settled. -/
inductive Settles (reduce shift : Expr) : Resolution → Prop where
  | bare (left : reduce.wrappers = []) (right : shift.wrappers = []) :
      Settles reduce shift .unresolved
  | higher (level : shift.staticLevel < reduce.staticLevel) : Settles reduce shift .preferReduce
  | lower (level : reduce.staticLevel < shift.staticLevel) : Settles reduce shift .preferShift
  | left {value} (level : reduce.staticLevel = shift.staticLevel)
      (assoc : reduce.static? = some (value, .left)) : Settles reduce shift .preferReduce
  | right {value} (level : reduce.staticLevel = shift.staticLevel)
      (assoc : reduce.static? = some (value, .right)) : Settles reduce shift .preferShift
  | nonAssociative {value} (level : reduce.staticLevel = shift.staticLevel)
      (assoc : reduce.static? = some (value, .none)) : Settles reduce shift .nonAssociative
  | dynamic (level : reduce.staticLevel = shift.staticLevel) (annotated : reduce.wrappers ≠ [])
      (only : reduce.static? = none) : Settles reduce shift .dynamic
  | unannotated (level : reduce.staticLevel = shift.staticLevel) (bare : reduce.wrappers = []) :
      Settles reduce shift .unresolved

end Expr

namespace Annotation

open Productions.Expr (wrappers static? staticLevel)

/-- Collecting adds the outermost annotation of each kind where there was none before. -/
theorem collect_eq (found : Annotation) (e : Expr) : collect found e =
    ⟨found.level.or (e.static?.map fun w => valueLevel w.1),
      if found.level.isNone then (e.static?.map Prod.snd).getD found.assoc else found.assoc,
      found.dynamic.or ((e.wrappers.find? fun w => w.2 = .dynamic).map fun w => valueLevel w.1)⟩ := by
  induction e generalizing found with
  | prec value assoc content ih =>
    obtain ⟨level, held, dynamic⟩ := found
    cases assoc with
    | dynamic =>
      rw [collect, ih]
      cases level <;> cases dynamic <;> simp [static?, wrappers]
    | none | left | right =>
      rw [collect, ih]
      · cases level <;> simp [static?, wrappers]
      · rintro ⟨⟩
  | _ => simp [collect, static?, wrappers]

theorem exists_dynamic_of_not_static {e : Expr} (only : e.static? = none)
    (annotated : e.wrappers ≠ []) : ∃ w, (e.wrappers.find? fun w => w.2 = .dynamic) = some w := by
  obtain ⟨w, mem⟩ := List.exists_mem_of_ne_nil _ annotated
  refine Option.isSome_iff_exists.1 (List.find?_isSome.2 ⟨w, mem, ?_⟩)
  simpa using List.find?_eq_none.1 only w mem

theorem of_eq (e : Expr) : of e =
    ⟨e.static?.map fun w => valueLevel w.1,
      (e.static?.map Prod.snd).getD (if e.wrappers = [] then .none else .dynamic),
      (e.wrappers.find? fun w => w.2 = .dynamic).map fun w => valueLevel w.1⟩ := by
  rw [of, collect_eq]
  cases static : e.static? with
  | some w => simp [empty]
  | none =>
    by_cases bare : e.wrappers = []
    · simp [empty, bare]
    · obtain ⟨w, found⟩ := exists_dynamic_of_not_static static bare
      simp [empty, bare, found]

theorem effectiveLevel_of (e : Expr) : (of e).effectiveLevel = e.staticLevel := by
  rw [of_eq]
  rfl

theorem isAnnotated_of (e : Expr) : (of e).isAnnotated = true ↔ e.wrappers ≠ [] := by
  rw [of_eq, isAnnotated, Bool.or_eq_true, Option.isSome_map, Option.isSome_map, static?,
    List.find?_isSome, List.find?_isSome]
  constructor
  · rintro (⟨w, mem, -⟩ | ⟨w, mem, -⟩) <;> exact List.ne_nil_of_mem mem
  · intro annotated
    obtain ⟨w, mem⟩ := List.exists_mem_of_ne_nil _ annotated
    by_cases dynamic : w.2 = .dynamic
    · exact .inr ⟨w, mem, by simpa using dynamic⟩
    · exact .inl ⟨w, mem, by simpa using dynamic⟩

theorem settles_resolve (reduce shift : Expr) :
    reduce.Settles shift (resolve (of reduce) (of shift)) := by
  have unannotated {e : Expr} (h : (of e).isAnnotated = false) : e.wrappers = [] := by
    by_contra annotated
    simp [(isAnnotated_of e).2 annotated] at h
  unfold resolve
  split <;> rename_i bare
  · simp only [Bool.and_eq_true, Bool.not_eq_true'] at bare
    exact .bare (unannotated bare.1) (unannotated bare.2)
  rw [effectiveLevel_of, effectiveLevel_of]
  split <;> rename_i below
  · exact .higher below
  split <;> rename_i above
  · exact .lower above
  have level : reduce.staticLevel = shift.staticLevel := by omega
  cases static : reduce.static? with
  | some w =>
    obtain ⟨value, assoc⟩ := w
    have dynamic : assoc ≠ .dynamic := by simpa using List.find?_some static
    rw [of_eq, static]
    cases assoc with
    | none => exact .nonAssociative level static
    | left => exact .left level static
    | right => exact .right level static
    | dynamic => exact absurd rfl dynamic
  | none =>
    rw [of_eq, static]
    by_cases bare : reduce.wrappers = []
    · simp only [bare, if_true]
      exact .unannotated level bare
    · simp only [bare, if_false]
      exact .dynamic level bare static

theorem isAnnotated_of_static {e : Expr} {w : Precedence × Assoc} (h : e.static? = some w) :
    (of e).isAnnotated = true :=
  (isAnnotated_of e).2 (List.ne_nil_of_mem (List.mem_of_find?_eq_some h))

theorem staticLevel_of_bare {e : Expr} (bare : e.wrappers = []) : e.staticLevel = 0 := by
  rw [staticLevel, static?, bare]
  rfl

theorem isAnnotated_of_bare {e : Expr} (bare : e.wrappers = []) : (of e).isAnnotated = false := by
  rw [← Bool.not_eq_true, isAnnotated_of]
  exact not_not_intro bare

theorem isAnnotated_of_level_ne {e f : Expr} (differ : e.staticLevel ≠ f.staticLevel) :
    ((of e).isAnnotated || (of f).isAnnotated) = true := by
  rw [Bool.or_eq_true, isAnnotated_of, isAnnotated_of]
  by_contra bare
  rw [not_or, not_not, not_not] at bare
  exact differ ((staticLevel_of_bare bare.1).trans (staticLevel_of_bare bare.2).symm)

theorem resolve_eq_of_settles {reduce shift : Expr} {res : Resolution}
    (h : reduce.Settles shift res) : resolve (of reduce) (of shift) = res := by
  rw [resolve, ← Bool.not_or]
  cases h with
  | bare left right => simp [isAnnotated_of_bare left, isAnnotated_of_bare right]
  | higher level =>
    simp [isAnnotated_of_level_ne level.ne', effectiveLevel_of, level]
  | lower level =>
    simp [isAnnotated_of_level_ne level.ne, effectiveLevel_of, level, level.le]
  | left level assoc | right level assoc | nonAssociative level assoc =>
    have side := isAnnotated_of_static assoc
    rw [side, effectiveLevel_of, effectiveLevel_of, level]
    simp [of_eq, assoc]
  | dynamic level annotated only =>
    have side := (isAnnotated_of reduce).2 annotated
    rw [side, effectiveLevel_of, effectiveLevel_of, level]
    simp [of_eq, only, annotated]
  | unannotated level bare =>
    have none : reduce.static? = none := by rw [static?, bare]; rfl
    rw [effectiveLevel_of, effectiveLevel_of, level]
    simp [of_eq reduce, none, bare]

theorem resolve_eq_iff_settles {reduce shift : Expr} {res : Resolution} :
    resolve (of reduce) (of shift) = res ↔ reduce.Settles shift res := by
  refine ⟨?_, resolve_eq_of_settles⟩
  rintro rfl
  exact settles_resolve reduce shift

end Annotation

namespace Disambiguation

theorem mem_meetings {alternatives : List Alternative} {t : TieBreak} :
    t ∈ meetings alternatives ↔ ∃ a b, alternatives[t.reduce]? = some a
      ∧ alternatives[t.shift]? = some b ∧ a.rightOpen = true ∧ b.leftOpen = true
      ∧ a.precedence.resolve b.precedence = t.resolution := by
  obtain ⟨reduce, shift, resolution⟩ := t
  simp only [meetings, List.mem_flatMap, List.mem_map, List.mem_filter, Prod.exists,
    List.mem_zipIdx_iff_getElem?, TieBreak.mk.injEq]
  constructor
  · rintro ⟨a, _, ⟨foundA, right⟩, b, _, ⟨foundB, left⟩, rfl, rfl, rfl⟩
    exact ⟨a, b, foundA, foundB, right, left, rfl⟩
  · rintro ⟨a, b, foundA, foundB, right, left, rfl⟩
    exact ⟨a, reduce, ⟨foundA, right⟩, b, shift, ⟨foundB, left⟩, rfl, rfl, rfl⟩

/-- A pair is found if and only if its alternatives meet. No pair has two entries. -/
theorem tieBreak_eq_some_iff {d : Disambiguation} (made : d.tieBreaks = meetings d.alternatives)
    {r s : ℕ} {res : Resolution} : d.tieBreak r s = some res
      ↔ ∃ a b, d.alternatives[r]? = some a ∧ d.alternatives[s]? = some b
        ∧ a.rightOpen = true ∧ b.leftOpen = true ∧ a.precedence.resolve b.precedence = res := by
  rw [tieBreak, made, Option.map_eq_some_iff]
  constructor
  · rintro ⟨t, found, rfl⟩
    obtain ⟨rfl, rfl⟩ : t.reduce = r ∧ t.shift = s := by simpa using List.find?_some found
    exact mem_meetings.1 (List.mem_of_find?_eq_some found)
  · rintro ⟨a, b, foundA, foundB, right, left, settled⟩
    have mem : ⟨r, s, res⟩ ∈ meetings d.alternatives :=
      mem_meetings.2 ⟨a, b, foundA, foundB, right, left, settled⟩
    have some := List.find?_isSome (p := fun t : TieBreak => t.reduce == r && t.shift == s).2
      ⟨_, mem, by simp⟩
    obtain ⟨t, found⟩ := Option.isSome_iff_exists.1 some
    refine ⟨t, found, ?_⟩
    obtain ⟨rfl, rfl⟩ : t.reduce = r ∧ t.shift = s := by simpa using List.find?_some found
    obtain ⟨a', b', foundA', foundB', -, -, settled'⟩ :=
      mem_meetings.1 (List.mem_of_find?_eq_some found)
    rw [foundA, Option.some.injEq] at foundA'
    rw [foundB, Option.some.injEq] at foundB'
    rw [← settled', ← settled, foundA', foundB']

/-- A symbol stands for a variable: it is the variable, or comes to it by choices and annotations. -/
def StandsFor (n : Numbering) (i : ℕ) (s : Symbol) : Prop := ∃ u, s = .rule u ∧ n.Chooses u i

abbrev targets (n : NormalForm) (i : ℕ) : Symbol → Bool := standsFor (unitClosure n.bodies) i

abbrev judged (n : NormalForm) (i : ℕ) (v : Variable) : List Alternative :=
  v.body.alternatives.map (alternative (targets n i) n.numbering.omissible)

abbrev tableOf (n : NormalForm) (i : ℕ) (v : Variable) : Disambiguation :=
  ⟨v.name, i, judged n i v, meetings (judged n i v)⟩

variable {n : NormalForm} {i : ℕ} {v : Variable}

theorem targets_iff (lookup : n.vars[i]? = some v) (s : Symbol) :
    targets n i s = true ↔ StandsFor n.numbering i s := by
  have known : i < n.numbering.bodies.length := by
    have below := (List.getElem?_eq_some_iff.1 lookup).1
    simpa [NormalForm.numbering, NormalForm.bodies] using below
  cases s with
  | rule u =>
    have chosen : targets n i (.rule u) = true ↔ n.numbering.Chooses u i :=
      standsFor_iff_chooses known
    simpa [StandsFor] using chosen
  | lexical | external => simp [StandsFor, targets, standsFor]

theorem mem_tables {d : Disambiguation} : d ∈ tables n ↔ ∃ i v, n.vars[i]? = some v
    ∧ isWanted (judged n i v) = true ∧ d = tableOf n i v := by
  rw [tables, List.mem_filterMap]
  constructor
  · rintro ⟨⟨v, i⟩, mem, made⟩
    simp only [ofVariable?, Option.ite_none_right_eq_some, Option.some.injEq] at made
    exact ⟨i, v, List.mem_zipIdx_iff_getElem?.1 mem, made.1, made.2.symm⟩
  · rintro ⟨i, v, lookup, wanted, rfl⟩
    exact ⟨(v, i), List.mem_zipIdx_iff_getElem?.2 lookup, if_pos wanted⟩

theorem isWanted_iff (lookup : n.vars[i]? = some v) : isWanted (judged n i v) = true
    ↔ ∃ e ∈ v.body.alternatives,
      e.wrappers ≠ [] ∨ ∃ s ∈ e.symbols, StandsFor n.numbering i s := by
  simp only [isWanted, List.any_map, List.any_eq_true, Function.comp_apply, alternative,
    Bool.or_eq_true, Annotation.isAnnotated_of, targets_iff lookup]
  exact exists_congr fun e => and_congr_right' or_comm

/-- What two alternatives come to by their descriptions is what they come to by themselves. -/
theorem meet_iff (lookup : n.vars[i]? = some v) {r s : ℕ} {res : Resolution} :
    (∃ a b, (judged n i v)[r]? = some a ∧ (judged n i v)[s]? = some b
        ∧ a.rightOpen = true ∧ b.leftOpen = true ∧ a.precedence.resolve b.precedence = res)
      ↔ ∃ a b, v.body.alternatives[r]? = some a ∧ v.body.alternatives[s]? = some b
        ∧ a.CanEnd n.numbering (StandsFor n.numbering i)
        ∧ b.CanBegin n.numbering (StandsFor n.numbering i) ∧ a.Settles b res := by
  have right (e : Expr) : e.endsWith (targets n i) n.numbering.omissible = true
      ↔ e.CanEnd n.numbering (StandsFor n.numbering i) := by
    simp only [Expr.endsWith_iff_canEnd, targets_iff lookup]
  have left (e : Expr) : e.startsWith (targets n i) n.numbering.omissible = true
      ↔ e.CanBegin n.numbering (StandsFor n.numbering i) := by
    simp only [Expr.startsWith_iff_canBegin, targets_iff lookup]
  simp only [judged, List.getElem?_map, Option.map_eq_some_iff]
  constructor
  · rintro ⟨_, _, ⟨a, foundA, rfl⟩, ⟨b, foundB, rfl⟩, ends, begins, settled⟩
    exact ⟨a, b, foundA, foundB, (right a).1 ends, (left b).1 begins,
      Annotation.resolve_eq_iff_settles.1 settled⟩
  · rintro ⟨a, b, foundA, foundB, ends, begins, settles⟩
    exact ⟨_, _, ⟨a, foundA, rfl⟩, ⟨b, foundB, rfl⟩, (right a).2 ends, (left b).2 begins,
      Annotation.resolve_eq_of_settles settles⟩

/-- A table says of each pair of alternatives of a variable whether the two meet, and how they are
settled. A place without an alternative meets nothing. -/
structure Exact (n : Numbering) (i : ℕ) (v : Variable) (d : Disambiguation) : Prop where
  rule : d.rule = v.name
  meets : ∀ r s, (d.tieBreak r s).isSome = true ↔ ∃ a b, v.body.alternatives[r]? = some a
    ∧ v.body.alternatives[s]? = some b ∧ a.CanEnd n (StandsFor n i) ∧ b.CanBegin n (StandsFor n i)
  settles : ∀ r s res, d.tieBreak r s = some res → ∃ a b, v.body.alternatives[r]? = some a
    ∧ v.body.alternatives[s]? = some b ∧ a.Settles b res

theorem exact_tableOf (lookup : n.vars[i]? = some v) : Exact n.numbering i v (tableOf n i v) := by
  have found (r s : ℕ) (res : Resolution) : (tableOf n i v).tieBreak r s = some res ↔ _ :=
    (tieBreak_eq_some_iff rfl).trans (meet_iff lookup)
  refine ⟨rfl, fun r s => ?_, fun r s res settled => ?_⟩
  · rw [Option.isSome_iff_exists]
    constructor
    · rintro ⟨res, settled⟩
      obtain ⟨a, b, foundA, foundB, ends, begins, -⟩ := (found r s res).1 settled
      exact ⟨a, b, foundA, foundB, ends, begins⟩
    · rintro ⟨a, b, foundA, foundB, ends, begins⟩
      exact ⟨_, (found r s _).2 ⟨a, b, foundA, foundB, ends, begins,
        Annotation.settles_resolve a b⟩⟩
  · obtain ⟨a, b, foundA, foundB, -, -, settles⟩ := (found r s res).1 settled
    exact ⟨a, b, foundA, foundB, settles⟩

/-- A normal form has a table for a variable exactly if an alternative is annotated or has a symbol
that stands for the variable. The table settles exactly the pairs of alternatives that can be
unfolded to lists that end and begin with such symbols, as their annotations say. -/
theorem tables_exact (n : NormalForm) {i : ℕ} {v : Variable} (lookup : n.vars[i]? = some v) :
    ((∃ d ∈ tables n, d.id = i) ↔ ∃ e ∈ v.body.alternatives,
        e.wrappers ≠ [] ∨ ∃ s ∈ e.symbols, StandsFor n.numbering i s)
      ∧ ∀ d ∈ tables n, d.id = i → Exact n.numbering i v d := by
  have unique {d : Disambiguation} (mem : d ∈ tables n) (own : d.id = i) :
      isWanted (judged n i v) = true ∧ d = tableOf n i v := by
    obtain ⟨_, v', lookup', wanted, rfl⟩ := mem_tables.1 mem
    obtain rfl := own
    obtain rfl := Option.some.inj (lookup.symm.trans lookup')
    exact ⟨wanted, rfl⟩
  refine ⟨?_, fun d mem own => (unique mem own).2 ▸ exact_tableOf lookup⟩
  rw [← isWanted_iff lookup]
  constructor
  · rintro ⟨d, mem, own⟩
    exact (unique mem own).1
  · intro wanted
    exact ⟨_, mem_tables.2 ⟨i, v, lookup, wanted, rfl⟩, rfl⟩

def groupedSum : Expr :=
  .prec (.integer 1) .left (.seq [.symbol (.rule 0), .symbol (.lexical 0), .symbol (.rule 0)])

def groupedSums : NormalForm where
  name := "sums"
  vars := [⟨"expr", .nonterminal, .choice [groupedSum, .symbol (.lexical 1)], [], ∅⟩]
  lexicon := [⟨"+", false, .terminal (.literal "+"), false⟩, ⟨"n", false, .terminal (.literal "n"), false⟩]
  externals := []
  extras := []
  word := none
  expansions := ∅
  conflicts := []
  supertypes := ∅
  precedences := []
  table := ⟨∅, ∅⟩

/-- A sum begins and ends with an expression and groups to the left; a numeral does neither. -/
theorem tables_exact_groupedSums : ∃ d ∈ tables groupedSums, d.id = 0
    ∧ d.tieBreak 0 0 = some .preferReduce ∧ d.tieBreak 0 1 = none := by
  obtain ⟨wanted, exact⟩ := tables_exact groupedSums (i := 0) rfl
  obtain ⟨d, mem, own⟩ := wanted.2 ⟨groupedSum, List.mem_cons_self, .inl (List.cons_ne_nil _ _)⟩
  obtain ⟨-, meets, settles⟩ := exact d mem own
  have stands : StandsFor groupedSums.numbering 0 (.rule 0) := ⟨0, rfl, .refl⟩
  have unfolds : Expr.Unfolds groupedSums.numbering [groupedSum]
      [.symbol (.rule 0), .symbol (.lexical 0), .symbol (.rule 0)] :=
    (Expr.Opens.prec _ _ _).unfolds.trans (Expr.Opens.seq _).unfolds
  refine ⟨d, mem, own, ?_, ?_⟩
  · obtain ⟨res, settled⟩ := Option.isSome_iff_exists.1 ((meets 0 0).2 ⟨groupedSum, groupedSum, rfl,
      rfl, ⟨_, [.symbol (.rule 0), .symbol (.lexical 0)], stands, unfolds⟩,
      _, _, stands, unfolds⟩)
    obtain ⟨a, b, foundA, foundB, how⟩ := settles 0 0 res settled
    obtain ⟨rfl, rfl⟩ := And.intro (Option.some.inj foundA) (Option.some.inj foundB)
    rw [settled, ← Annotation.resolve_eq_of_settles how]
    rfl
  · rw [← Option.not_isSome_iff_eq_none, meets]
    rintro ⟨a, b, -, foundB, -, begins⟩
    obtain rfl := Option.some.inj foundB
    have same : StandsFor groupedSums.numbering 0 = fun s => targets groupedSums 0 s = true :=
      funext fun s => propext (targets_iff rfl s).symm
    rw [same] at begins
    cases (Expr.startsWith_iff_canBegin _).2 begins

end Disambiguation

end Productions
