import Mathlib.Algebra.Group.Action.Defs
import Mathlib.Algebra.Order.BigOperators.Group.List
import Mathlib.Algebra.Order.Group.Nat
import Productions.Proofs.Ambiguity.Tables

/-! First terminals. The rounds end in sets that are closed: a variable begins with all that its
body begins with. So where an alternative can begin with a symbol that stands for a variable, it
begins with all that the variable begins with. In a grammar that compiles no token is empty, and the
checks and the tables find the same variables empty. -/
namespace Productions

namespace OrderedSet

theorem prefix_insertAll {α : Type} [DecidableEq α] (s : OrderedSet α) (xs : List α) :
    s.toList <+: (s.insertAll xs).toList := by
  induction xs generalizing s with
  | nil => exact List.prefix_rfl
  | cons x xs ih => exact (prefix_insert s x).trans (ih (s.insert x))

end OrderedSet

namespace FirstSets

variable {isNullable : Symbol → Bool} {first first' first'' : List (OrderedSet Symbol)}

def Grown (first first' : List (OrderedSet Symbol)) : Prop :=
  List.Forall₂ (fun s t => s.toList <+: t.toList) first first'

theorem Grown.refl (first : List (OrderedSet Symbol)) : Grown first first :=
  List.forall₂_same.2 fun _ _ => List.prefix_rfl

theorem Grown.trans (h : Grown first first') (h' : Grown first' first'') : Grown first first'' := by
  induction h generalizing first'' with
  | nil => exact h'
  | cons head _ ih =>
    cases h' with
    | cons head' tail' => exact .cons (head.trans head') (ih tail')

theorem Grown.antisymm (h : Grown first first') (h' : Grown first' first) : first = first' := by
  induction h with
  | nil => rfl
  | cons head _ ih =>
    cases h' with
    | cons head' tail' => rw [OrderedSet.eq_of_prefixes head head', ih tail']

def total (first : List (OrderedSet Symbol)) : Nat := (first.map OrderedSet.size).sum

theorem Grown.total_le (h : Grown first first') : total first ≤ total first' := by
  induction h with
  | nil => exact Nat.le_refl _
  | cons head _ ih =>
    simp only [total, List.map_cons, List.sum_cons] at ih ⊢
    exact Nat.add_le_add head.length_le ih

theorem Grown.eq_of_total (h : Grown first first') (same : total first' ≤ total first) :
    first' = first := by
  induction h with
  | nil => rfl
  | @cons s t _ _ head tail ih =>
    have rest := Grown.total_le tail
    have size : s.size ≤ t.size := head.length_le
    simp only [total, List.map_cons, List.sum_cons] at same rest
    have kept : t = s := (OrderedSet.ext (head.eq_of_length (Nat.le_antisymm size
      (by change t.size ≤ s.size; omega)))).symm
    rw [kept, ih (by simp only [total]; omega)]

theorem grown_modify {f : OrderedSet Symbol → OrderedSet Symbol}
    (grows : ∀ s, s.toList <+: (f s).toList) (i : Nat) (first : List (OrderedSet Symbol)) :
    Grown first (first.modify i f) := by
  induction first generalizing i with
  | nil => simp [Grown]
  | cons s first ih =>
    cases i with
    | zero => exact .cons (grows s) (Grown.refl first)
    | succ i => exact .cons List.prefix_rfl (ih i)

def growWith (isNullable : Symbol → Bool) (first : List (OrderedSet Symbol)) (b : Expr × Nat) :
    List (OrderedSet Symbol) :=
  first.modify b.2 fun set => set.insertAll (collect isNullable first b.1)

theorem grown_growWith (first : List (OrderedSet Symbol)) (b : Expr × Nat) :
    Grown first (growWith isNullable first b) :=
  grown_modify (fun s => s.prefix_insertAll _) b.2 first

theorem grow_eq (bodies : List Expr) (first : List (OrderedSet Symbol)) :
    grow isNullable bodies first = bodies.zipIdx.foldl (growWith isNullable) first := rfl

theorem grown_foldl (bs : List (Expr × Nat)) (first : List (OrderedSet Symbol)) :
    Grown first (bs.foldl (growWith isNullable) first) := by
  induction bs generalizing first with
  | nil => exact .refl first
  | cons b bs ih => exact (grown_growWith first b).trans (ih _)

/-- In a round that changes nothing no body adds anything. -/
theorem growWith_eq_of_foldl {bs : List (Expr × Nat)}
    (same : bs.foldl (growWith isNullable) first = first) :
    ∀ b ∈ bs, growWith isNullable first b = first := by
  induction bs with
  | nil => simp
  | cons b bs ih =>
    rw [List.foldl_cons] at same
    have back : Grown (growWith isNullable first b) first := by
      have rest : Grown (growWith isNullable first b) (bs.foldl (growWith isNullable) _) :=
        grown_foldl bs _
      rwa [same] at rest
    have kept : growWith isNullable first b = first := back.antisymm (grown_growWith first b)
    rw [kept] at same
    intro other mem
    rcases List.mem_cons.1 mem with rfl | mem
    · exact kept
    · exact ih same other mem

theorem mem_ofSymbol {u s : Symbol} (h : s ∈ ofSymbol first u) : s = u ∨ ∃ set ∈ first, s ∈ set := by
  cases u with
  | rule id =>
    rw [ofSymbol, List.getD_eq_getElem?_getD] at h
    cases lookup : first[id]? with
    | none => simp [lookup] at h
    | some set => exact .inr ⟨set, List.mem_of_getElem? lookup, by simpa [lookup] using h⟩
  | lexical | external => exact .inl (List.mem_singleton.1 h)

mutual

theorem mem_collect {s : Symbol} : (e : Expr) → s ∈ collect isNullable first e →
    s ∈ e.symbols ∨ ∃ set ∈ first, s ∈ set
  | .symbol u, h => (mem_ofSymbol h).imp_left fun same => by simp [Expr.symbols, same]
  | .seq members, h => mem_collectSeq members h
  | .choice members, h => mem_collectChoice members h
  | .repeated content, h | .prec _ _ content, h | .aliased content _ _, h | .field _ content, h =>
    mem_collect content h

theorem mem_collectSeq {s : Symbol} : (es : List Expr) → s ∈ collectSeq isNullable first es →
    s ∈ Expr.symbolsAll es ∨ ∃ set ∈ first, s ∈ set
  | [], h => absurd h List.not_mem_nil
  | e :: es, h => by
    rw [Expr.symbolsAll, List.mem_append, or_assoc]
    rcases List.mem_append.1 h with h | h
    · exact (mem_collect e h).imp_right .inr
    · by_cases null : e.nullable isNullable = true
      · rw [if_pos null] at h
        exact .inr (mem_collectSeq es h)
      · rw [if_neg null] at h
        cases h

theorem mem_collectChoice {s : Symbol} : (es : List Expr) →
    s ∈ collectChoice isNullable first es → s ∈ Expr.symbolsAll es ∨ ∃ set ∈ first, s ∈ set
  | [], h => absurd h List.not_mem_nil
  | e :: es, h => by
    rw [Expr.symbolsAll, List.mem_append, or_assoc]
    rcases List.mem_append.1 h with h | h
    · exact (mem_collect e h).imp_right .inr
    · exact .inr (mem_collectChoice es h)

end

section Rounds

variable {bodies : List Expr}

structure Sized (bodies : List Expr) (first : List (OrderedSet Symbol)) : Prop where
  length : first.length = bodies.length
  known : ∀ set ∈ first, ∀ s ∈ set, s ∈ bodies.flatMap Expr.symbols

theorem Sized.total_le (h : Sized bodies first) :
    total first ≤ bodies.length * (bodies.flatMap Expr.symbols).length := by
  have each : ∀ size ∈ first.map OrderedSet.size, size ≤ (bodies.flatMap Expr.symbols).length := by
    intro size mem
    obtain ⟨set, listed, rfl⟩ := List.mem_map.1 mem
    exact (List.subperm_of_subset set.nodup (h.known set listed)).length_le
  have bound := List.sum_le_card_nsmul _ _ each
  rwa [List.length_map, h.length, smul_eq_mul] at bound

theorem Sized.growWith (h : Sized bodies first) {b : Expr × Nat} (mem : b.1 ∈ bodies) :
    Sized bodies (growWith isNullable first b) where
  length := by rw [FirstSets.growWith, List.length_modify, h.length]
  known set listed s hs := by
    obtain ⟨i, found⟩ := List.getElem?_of_mem listed
    rw [FirstSets.growWith, List.getElem?_modify] at found
    obtain ⟨old, lookup, rfl⟩ := Option.map_eq_some_iff.1 found
    have listedOld := List.mem_of_getElem? lookup
    split at hs
    · rcases OrderedSet.mem_insertAll.1 hs with hs | hs
      · exact h.known old listedOld s hs
      · rcases mem_collect b.1 hs with hs | ⟨other, listed, hs⟩
        · exact List.mem_flatMap.2 ⟨b.1, mem, hs⟩
        · exact h.known other listed s hs
    · exact h.known old listedOld s hs

theorem Sized.grow (h : Sized bodies first) : Sized bodies (grow isNullable bodies first) := by
  have all : ∀ b ∈ bodies.zipIdx, b.1 ∈ bodies := fun b mem => List.fst_mem_of_mem_zipIdx mem
  rw [grow_eq]
  generalize bodies.zipIdx = bs at all
  induction bs generalizing first with
  | nil => exact h
  | cons b bs ih =>
    exact ih (h.growWith (all b (by simp))) fun other mem => all other (by simp [mem])

theorem sized_start : Sized bodies (bodies.map fun _ => ∅) where
  length := List.length_map _
  known set listed s hs := by
    obtain ⟨_, -, rfl⟩ := List.mem_map.1 listed
    cases hs

theorem grow_settle : grow isNullable bodies
      (settle (grow isNullable bodies) (rounds bodies) (bodies.map fun _ => ∅))
    = settle (grow isNullable bodies) (rounds bodies) (bodies.map fun _ => ∅) := by
  refine step_settle total (bodies.length * (bodies.flatMap Expr.symbols).length) (Sized bodies)
    (fun _ h => h.grow) (fun _ h => h.total_le) (fun first _ changed => ?_) _ _ sized_start ?_
  · by_contra kept
    exact changed (Grown.eq_of_total (grown_foldl _ first) (Nat.le_of_not_lt kept))
  · rw [rounds]
    omega

theorem sized_settle : Sized bodies
    (settle (grow isNullable bodies) (rounds bodies) (bodies.map fun _ => ∅)) :=
  settle_induction _ (fun _ h => h.grow) _ _ sized_start

end Rounds

variable {entries : List LexicalEntry} {bodies : List Expr}

theorem mem_ofVariable {id : Nat} {body : Expr} (lookup : bodies[id]? = some body) {s : Symbol}
    (h : s ∈ (compute entries bodies).ofExpr body) : s ∈ (compute entries bodies).ofVariable id := by
  set f := compute entries bodies
  have settled : growWith f.symbolNullable f.first (body, id) = f.first :=
    growWith_eq_of_foldl grow_settle _ (List.mem_zipIdx_iff_getElem?.2 lookup)
  have known : id < f.first.length :=
    sized_settle.length ▸ (List.getElem?_eq_some_iff.1 lookup).1
  have kept : (f.first[id]).insertAll (collect f.symbolNullable f.first body) = f.first[id] := by
    have place := congrArg (fun sets => sets[id]?) settled
    simpa [growWith, List.getElem?_modify, known] using place
  rw [ofVariable, List.getD_eq_getElem?_getD, List.getElem?_eq_getElem known, Option.getD_some,
    ← kept, OrderedSet.mem_insertAll]
  exact .inr (OrderedSet.mem_ofList.1 h)

mutual

/-- What can begin with a target begins with all that some target begins with. -/
theorem exists_subset_collect {target : Symbol → Bool} : (e : Expr) →
    e.startsWith target isNullable = true →
    ∃ u, target u = true ∧ ofSymbol first u ⊆ collect isNullable first e
  | .symbol u, h => ⟨u, h, fun _ hs => hs⟩
  | .seq members, h => exists_subset_collectSeq members h
  | .choice members, h => exists_subset_collectChoice members h
  | .repeated content, h | .prec _ _ content, h | .aliased content _ _, h | .field _ content, h =>
    exists_subset_collect content h

theorem exists_subset_collectSeq {target : Symbol → Bool} : (es : List Expr) →
    Expr.seqStartsWith target isNullable es = true →
    ∃ u, target u = true ∧ ofSymbol first u ⊆ collectSeq isNullable first es
  | e :: es, h => by
    rw [Expr.seqStartsWith, Bool.or_eq_true, Bool.and_eq_true] at h
    rcases h with h | ⟨null, h⟩
    · obtain ⟨u, hu, begins⟩ := exists_subset_collect e h
      exact ⟨u, hu, fun s hs => List.mem_append.2 (.inl (begins hs))⟩
    · obtain ⟨u, hu, begins⟩ := exists_subset_collectSeq es h
      refine ⟨u, hu, fun s hs => List.mem_append.2 (.inr ?_)⟩
      rw [if_pos null]
      exact begins hs

theorem exists_subset_collectChoice {target : Symbol → Bool} : (es : List Expr) →
    Expr.someStartsWith target isNullable es = true →
    ∃ u, target u = true ∧ ofSymbol first u ⊆ collectChoice isNullable first es
  | e :: es, h => by
    rw [Expr.someStartsWith, Bool.or_eq_true] at h
    rcases h with h | h
    · obtain ⟨u, hu, begins⟩ := exists_subset_collect e h
      exact ⟨u, hu, fun s hs => List.mem_append.2 (.inl (begins hs))⟩
    · obtain ⟨u, hu, begins⟩ := exists_subset_collectChoice es h
      exact ⟨u, hu, fun s hs => List.mem_append.2 (.inr (begins hs))⟩

end

theorem collectChoice_eq_flatMap (es : List Expr) :
    collectChoice isNullable first es = es.flatMap (collect isNullable first) := by
  induction es with
  | nil => rfl
  | cons e es ih => rw [collectChoice, ih, List.flatMap_cons]

/-- What can be a variable as a whole begins with all that the variable begins with. -/
theorem subset_collect_of_offers {e : Expr} {i : ℕ} (h : e.Offers i) :
    ofSymbol first (.rule i) ⊆ collect isNullable first e := by
  induction h with
  | symbol i => exact fun _ hs => hs
  | choice mem _ ih =>
    rw [collect, collectChoice_eq_flatMap]
    exact fun s hs => List.mem_flatMap.2 ⟨_, mem, ih hs⟩
  | prec _ ih | aliased _ ih | field _ ih => exact ih

/-- A variable that comes to another one by choices begins with all that the other begins with. -/
theorem mem_ofVariable_of_chooses {n : Numbering} {i j : ℕ} (h : n.Chooses i j) {s : Symbol}
    (hs : s ∈ (compute entries n.bodies).ofVariable j) :
    s ∈ (compute entries n.bodies).ofVariable i := by
  induction h using Relation.ReflTransGen.head_induction_on with
  | refl => exact hs
  | head step _ ih =>
    obtain ⟨body, lookup, offers⟩ := step
    exact mem_ofVariable lookup (OrderedSet.mem_ofList.2 (subset_collect_of_offers offers ih))

/-- An alternative that can begin with a symbol that stands for a variable begins with all that
the variable begins with. -/
theorem mem_ofExpr_of_leftOpen {n : NormalForm} {i : ℕ} {v : Variable}
    (lookup : n.vars[i]? = some v) {e : Expr}
    (leftOpen : e.startsWith (Disambiguation.targets n i) (ofNormalForm n).symbolNullable = true)
    {s : Symbol} (hs : s ∈ (ofNormalForm n).ofVariable i) : s ∈ (ofNormalForm n).ofExpr e := by
  obtain ⟨u, target, begins⟩ : ∃ u, Disambiguation.targets n i u = true
      ∧ ofSymbol (ofNormalForm n).first u ⊆ collect _ (ofNormalForm n).first e :=
    exists_subset_collect e leftOpen
  obtain ⟨j, rfl, chooses⟩ := (Disambiguation.targets_iff lookup u).1 target
  exact OrderedSet.mem_ofList.2 (begins (mem_ofVariable_of_chooses (n := n.numbering) chooses hs))

end FirstSets

namespace Disambiguated

/-- The tables of a grammar and the checks on it agree: on the variables that derive the empty
text, and on what a variable and its alternatives begin with. -/
structure Agrees (d : Disambiguated) : Prop where
  nullable : Expr.nullableIds (fun _ => false) d.normal.bodies
    = (FirstSets.ofNormalForm d.normal).nullable
  tables : ∀ table ∈ d.tables, ∃ v, d.normal.vars[table.id]? = some v ∧ table.rule = v.name
    ∧ table.alternatives.length = v.body.alternatives.length
    ∧ ∀ (i : ℕ) (a : Alternative) (e : Expr), table.alternatives[i]? = some a →
      v.body.alternatives[i]? = some e → a.leftOpen = true →
        ∀ s ∈ (FirstSets.ofNormalForm d.normal).ofVariable table.id,
          s ∈ (FirstSets.ofNormalForm d.normal).ofExpr e

end Disambiguated

namespace Grammar

open FirstSets

variable {g : Grammar} {settings : Settings} {start : String} {c : CompiledGrammar}

theorem Compiles.tokenNullable_eq (h : g.Compiles settings start c) :
    tokenNullable (emptyTokensOf (g.settled settings start).lexicon) = fun _ => false := by
  funext s
  cases s with
  | lexical id =>
    rw [tokenNullable, emptyTokensOf, List.getD_eq_getElem?_getD, List.getElem?_map]
    cases lookup : (g.settled settings start).lexicon[id]? with
    | none => rfl
    | some entry =>
      exact (Validation.sound_of_tokenReports (h.quiet.1 entry (List.mem_of_getElem? lookup))).2
  | rule | external => rfl

theorem Compiles.nullable_eq (h : g.Compiles settings start c) :
    Expr.nullableIds (fun _ => false) (g.settled settings start).bodies
      = (ofNormalForm (g.settled settings start)).nullable := by
  rw [ofNormalForm, compute, h.tokenNullable_eq]

theorem Compiles.symbolNullable_eq (h : g.Compiles settings start c) :
    (ofNormalForm (g.settled settings start)).symbolNullable
      = (g.settled settings start).numbering.omissible := by
  rw [symbolNullable, ← h.nullable_eq]
  exact congrArg (Expr.symbolVerdict · _) h.tokenNullable_eq

/-- When a grammar compiles, its tables and the checks on it agree. -/
theorem agrees_of_compile (compiled : g.compile settings = .ok c) :
    ∃ d, g.disambiguated settings = .ok d ∧ d.validate = .ok c ∧ c.precedence = d.tables
      ∧ d.Agrees := by
  obtain ⟨start, h⟩ := compile_eq_ok compiled
  have stage := h.disambiguated_eq
  have precedence : c.precedence = Disambiguation.tables (g.settled settings start) := by
    rw [h.result]
    rfl
  have bound (d : Disambiguated) : (.ok d >>= Disambiguated.validate) = d.validate := rfl
  rw [compile_eq, stage, bound] at compiled
  refine ⟨_, stage, compiled, precedence, h.nullable_eq, fun table mem => ?_⟩
  obtain ⟨id, v, lookup, -, rfl⟩ := Disambiguation.mem_tables.1 mem
  refine ⟨v, lookup, rfl, List.length_map _, fun i a e found place leftOpen s hs => ?_⟩
  obtain rfl : Disambiguation.alternative _ _ e = a := by
    simpa [Disambiguation.judged, place] using found
  refine mem_ofExpr_of_leftOpen lookup ?_ hs
  rw [h.symbolNullable_eq]
  exact leftOpen

/-- Sums of numerals, where a sum may begin with signs and may go on with another sum. -/
def signedSums : Grammar where
  name := "sums"
  rules := [
    ⟨"sum", .choice [.prec (.integer 1) .left (.seq [.symbol "signs", .symbol "sum",
      .terminal (.literal "+"), .symbol "sum"]), .terminal (.literal "n")], false⟩,
    ⟨"signs", .repeated (.terminal (.literal "-")) .zeroOrMore, false⟩]
  extras := []
  precedences := []
  conflicts := []
  externals := []
  inlined := []
  supertypes := []
  word := none

/-- The signs may be missing, so a sum of sums begins with all that a sum begins with. -/
theorem agrees_signedSums : ∃ c d, signedSums.compile .default = .ok c
    ∧ signedSums.disambiguated .default = .ok d ∧ d.Agrees
    ∧ (ofNormalForm d.normal).nullable.toList = [1]
    ∧ d.tables.map (fun table => table.alternatives.map Alternative.leftOpen) = [[true, false]]
    ∧ ((ofNormalForm d.normal).ofVariable 0).toList = [.lexical 1, .lexical 2] := by
  have parts : (signedSums.disambiguated .default).toOption.map (fun d =>
      ((ofNormalForm d.normal).nullable.toList,
        d.tables.map (fun table => table.alternatives.map Alternative.leftOpen),
        ((ofNormalForm d.normal).ofVariable 0).toList))
      = some ([1], [[true, false]], [.lexical 1, .lexical 2]) := by cbv
  obtain ⟨c, compiled⟩ := exists_ok_of_isOk
    (show (signedSums.compile .default).isOk = true by cbv)
  obtain ⟨d, stage, -, -, agrees⟩ := agrees_of_compile compiled
  simp only [stage, Except.toOption, Option.map_some, Option.some.injEq, Prod.mk.injEq] at parts
  exact ⟨c, d, compiled, stage, agrees, parts⟩

end Grammar

end Productions
