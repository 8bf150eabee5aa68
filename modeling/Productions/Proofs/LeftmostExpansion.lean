import Productions.Proofs.FirstSets
import Productions.Proofs.Levels

/-! Leftmost expansion. Only the first of some expressions is ever expanded, until it has become a
terminal or has gone. The first terminals of an expression are exactly those that it comes to in
this way, and it counts as empty exactly if it can go altogether. Every step is followed backwards
by the sets, and every round of them only adds what some expansion comes to. -/
namespace Productions

open Relation

namespace NormalForm

/-- One step at the first of some expressions. -/
inductive LeftStep (n : NormalForm) : List Expr → List Expr → Prop where
  | expand {i v rest} (lookup : n.vars[i]? = some v) :
      LeftStep n (.symbol (.rule i) :: rest) (v.body :: rest)
  | delete {i entry rest} (lookup : n.lexicon[i]? = some entry)
      (empty : Vanishes (contentLanguage entry.content)) :
      LeftStep n (.symbol (.lexical i) :: rest) rest
  | seq {es rest} : LeftStep n (.seq es :: rest) (es ++ rest)
  | choice {e es rest} (mem : e ∈ es) : LeftStep n (.choice es :: rest) (e :: rest)
  | unroll {e rest} : LeftStep n (.repeated e :: rest) (e :: .repeated e :: rest)
  | stop {e rest} : LeftStep n (.repeated e :: rest) rest
  | prec {v a e rest} : LeftStep n (.prec v a e :: rest) (e :: rest)
  | aliased {e v m rest} : LeftStep n (.aliased e v m :: rest) (e :: rest)
  | field {m e rest} : LeftStep n (.field m e :: rest) (e :: rest)

abbrev Expands (n : NormalForm) : List Expr → List Expr → Prop := ReflTransGen n.LeftStep

def Leads (n : NormalForm) (es : List Expr) (t : Symbol) : Prop :=
  t.isTerminal = true ∧ ∃ rest, n.Expands es (.symbol t :: rest)

def BeginsWith (n : NormalForm) (e : Expr) (t : Symbol) : Prop := n.Leads [e] t

def Disappears (n : NormalForm) (e : Expr) : Prop := n.Expands [e] []

variable {n : NormalForm} {es fs more : List Expr} {e : Expr} {t : Symbol}

theorem LeftStep.append (h : n.LeftStep es fs) (more : List Expr) :
    n.LeftStep (es ++ more) (fs ++ more) := by
  cases h with
  | expand lookup => exact .expand lookup
  | delete lookup empty => exact .delete lookup empty
  | seq =>
    rw [List.append_assoc]
    exact .seq
  | choice mem => exact .choice mem
  | unroll => exact .unroll
  | stop => exact .stop
  | prec => exact .prec
  | aliased => exact .aliased
  | field => exact .field

theorem Expands.append (h : n.Expands es fs) (more : List Expr) :
    n.Expands (es ++ more) (fs ++ more) :=
  h.lift (· ++ more) fun _ _ step => step.append more

theorem Expands.skip (h : n.Expands es []) (more : List Expr) : n.Expands (es ++ more) more :=
  h.append more

theorem Leads.of_expands (h : n.Leads fs t) (before : n.Expands es fs) : n.Leads es t := by
  obtain ⟨terminal, rest, path⟩ := h
  exact ⟨terminal, rest, before.trans path⟩

theorem Leads.of_step (h : n.Leads fs t) (step : n.LeftStep es fs) : n.Leads es t :=
  h.of_expands (.single step)

theorem Leads.append (h : n.Leads es t) (more : List Expr) : n.Leads (es ++ more) t := by
  obtain ⟨terminal, rest, path⟩ := h
  exact ⟨terminal, rest ++ more, path.append more⟩

theorem leads_terminal (h : t.isTerminal = true) (rest : List Expr) :
    n.Leads (.symbol t :: rest) t :=
  ⟨h, rest, .refl⟩

section

variable {isNullable : Symbol → Bool}

mutual

theorem disappears_of_nullable (known : ∀ s, isNullable s = true → n.Disappears (.symbol s)) :
    (e : Expr) → e.nullable isNullable = true → n.Disappears e
  | .symbol s, h => known s h
  | .seq members, h => by
    have path := expands_nil_of_everyNullable known members h
    rw [← List.append_nil members] at path
    exact .head .seq path
  | .choice members, h => by
    obtain ⟨e, mem, path⟩ := exists_disappears_of_someNullable known members h
    exact .head (.choice mem) path
  | .repeated _, _ => .single .stop
  | .prec _ _ content, h => .head .prec (disappears_of_nullable known content h)
  | .aliased content _ _, h => .head .aliased (disappears_of_nullable known content h)
  | .field _ content, h => .head .field (disappears_of_nullable known content h)

theorem expands_nil_of_everyNullable
    (known : ∀ s, isNullable s = true → n.Disappears (.symbol s)) : (es : List Expr) →
    Expr.everyNullable isNullable es = true → n.Expands es []
  | [], _ => .refl
  | e :: es, h => by
    rw [Expr.everyNullable, Bool.and_eq_true] at h
    have first : n.Expands ([e] ++ es) es := (disappears_of_nullable known e h.1).skip es
    exact first.trans (expands_nil_of_everyNullable known es h.2)

theorem exists_disappears_of_someNullable
    (known : ∀ s, isNullable s = true → n.Disappears (.symbol s)) : (es : List Expr) →
    Expr.someNullable isNullable es = true → ∃ e ∈ es, n.Disappears e
  | e :: es, h => by
    rw [Expr.someNullable, Bool.or_eq_true] at h
    rcases h with h | h
    · exact ⟨e, by simp, disappears_of_nullable known e h⟩
    · obtain ⟨f, mem, path⟩ := exists_disappears_of_someNullable known es h
      exact ⟨f, by simp [mem], path⟩

end

end

theorem getElem?_bodies {i : ℕ} {body : Expr} :
    n.bodies[i]? = some body ↔ ∃ v, n.vars[i]? = some v ∧ v.body = body := by
  rw [bodies, List.getElem?_map, Option.map_eq_some_iff]

theorem emptyTerminal_lexical_iff {i : ℕ} : n.emptyTerminal (.lexical i) = true
    ↔ ∃ entry, n.lexicon[i]? = some entry ∧ Vanishes (contentLanguage entry.content) := by
  rw [n.judges_emptyTerminal.lexical]
  simp only [numbering, List.getElem?_map, Option.map_eq_some_iff, nullable_content_iff]
  constructor
  · rintro ⟨_, ⟨entry, lookup, rfl⟩, empty⟩
    exact ⟨entry, lookup, empty⟩
  · rintro ⟨entry, lookup, empty⟩
    exact ⟨_, ⟨entry, lookup, rfl⟩, empty⟩

theorem disappears_of_emptyTerminal {s : Symbol} (h : n.emptyTerminal s = true) :
    n.Disappears (.symbol s) := by
  cases s with
  | lexical i =>
    obtain ⟨entry, lookup, empty⟩ := emptyTerminal_lexical_iff.1 h
    exact .single (.delete lookup empty)
  | rule | external => cases h

/-- A variable enters after those that go, by a body that needs only these to go. -/
theorem disappears_of_mem_nullable :
    ∀ i ∈ (FirstSets.ofNormalForm n).nullable, n.Disappears (.symbol (.rule i)) := by
  refine OrderedSet.leastClosed_induction _ fun found old e mem holds => ?_
  obtain ⟨v, lookup, body⟩ := getElem?_bodies.1 (Numbering.mem_bodies_iff.1 mem)
  have known : ∀ s, Expr.symbolVerdict n.emptyTerminal found.contains s = true →
      n.Disappears (.symbol s) := by
    intro s hs
    cases s with
    | rule j => exact old j (OrderedSet.contains_iff.1 hs)
    | lexical j | external j => exact disappears_of_emptyTerminal hs
  have path := disappears_of_nullable known e.2 holds
  rw [← body] at path
  exact .head (.expand lookup) path

theorem disappears_of_symbolNullable {s : Symbol}
    (h : (FirstSets.ofNormalForm n).symbolNullable s = true) : n.Disappears (.symbol s) := by
  cases s with
  | rule i => exact disappears_of_mem_nullable i (OrderedSet.contains_iff.1 h)
  | lexical i | external i => exact disappears_of_emptyTerminal h

open FirstSets

section

variable {isNullable : Symbol → Bool} {first : List (OrderedSet Symbol)}

theorem mem_collectSeq_cons : t ∈ collectSeq isNullable first (e :: es)
    ↔ t ∈ collect isNullable first e
      ∨ e.nullable isNullable = true ∧ t ∈ collectSeq isNullable first es := by
  rw [collectSeq, List.mem_append]
  by_cases gone : e.nullable isNullable = true
  · simp only [gone, if_true, true_and]
  · simp [gone]

mutual

theorem leads_of_mem_collect (nullable : ∀ s, isNullable s = true → n.Disappears (.symbol s))
    (begins : ∀ s, ∀ t ∈ ofSymbol first s, n.BeginsWith (.symbol s) t) : (e : Expr) →
    t ∈ collect isNullable first e → n.BeginsWith e t
  | .symbol s, h => begins s t h
  | .seq members, h => by
    have leads := leads_of_mem_collectSeq nullable begins members h
    rw [← List.append_nil members] at leads
    exact leads.of_step .seq
  | .choice members, h => by
    obtain ⟨e, mem, leads⟩ := exists_leads_of_mem_collectChoice nullable begins members h
    exact leads.of_step (.choice mem)
  | .repeated content, h =>
    ((leads_of_mem_collect nullable begins content h).append _).of_step .unroll
  | .prec _ _ content, h => (leads_of_mem_collect nullable begins content h).of_step .prec
  | .aliased content _ _, h => (leads_of_mem_collect nullable begins content h).of_step .aliased
  | .field _ content, h => (leads_of_mem_collect nullable begins content h).of_step .field

theorem leads_of_mem_collectSeq (nullable : ∀ s, isNullable s = true → n.Disappears (.symbol s))
    (begins : ∀ s, ∀ t ∈ ofSymbol first s, n.BeginsWith (.symbol s) t) : (es : List Expr) →
    t ∈ collectSeq isNullable first es → n.Leads es t
  | [], h => absurd h List.not_mem_nil
  | e :: es, h => by
    rcases mem_collectSeq_cons.1 h with h | ⟨gone, h⟩
    · exact (leads_of_mem_collect nullable begins e h).append es
    · have skip : n.Expands ([e] ++ es) es := (disappears_of_nullable nullable e gone).skip es
      exact (leads_of_mem_collectSeq nullable begins es h).of_expands skip

theorem exists_leads_of_mem_collectChoice
    (nullable : ∀ s, isNullable s = true → n.Disappears (.symbol s))
    (begins : ∀ s, ∀ t ∈ ofSymbol first s, n.BeginsWith (.symbol s) t) : (es : List Expr) →
    t ∈ collectChoice isNullable first es → ∃ e ∈ es, n.BeginsWith e t
  | [], h => absurd h List.not_mem_nil
  | e :: es, h => by
    rcases List.mem_append.1 h with h | h
    · exact ⟨e, by simp, leads_of_mem_collect nullable begins e h⟩
    · obtain ⟨f, mem, leads⟩ := exists_leads_of_mem_collectChoice nullable begins es h
      exact ⟨f, by simp [mem], leads⟩

end

end

def Sound (n : NormalForm) (first : List (OrderedSet Symbol)) : Prop :=
  ∀ i set, first[i]? = some set → ∀ t ∈ set, n.BeginsWith (.symbol (.rule i)) t

theorem sound_start (bodies : List Expr) : n.Sound (bodies.map fun _ => ∅) := by
  intro i set found t mem
  rw [List.getElem?_map] at found
  obtain ⟨_, -, rfl⟩ := Option.map_eq_some_iff.1 found
  cases mem

section Rounds

variable {isNullable : Symbol → Bool} {first : List (OrderedSet Symbol)}

theorem Sound.ofSymbol (sound : n.Sound first) (s : Symbol) :
    ∀ t ∈ FirstSets.ofSymbol first s, n.BeginsWith (.symbol s) t := by
  intro t mem
  cases s with
  | rule i =>
    rw [FirstSets.ofSymbol, List.getD_eq_getElem?_getD] at mem
    cases found : first[i]? with
    | none => simp [found] at mem
    | some set =>
      rw [found, Option.getD_some] at mem
      exact sound i set found t mem
  | lexical i | external i =>
    obtain rfl := List.mem_singleton.1 mem
    exact leads_terminal rfl []

theorem Sound.growWith (sound : n.Sound first)
    (nullable : ∀ s, isNullable s = true → n.Disappears (.symbol s)) {b : Expr × ℕ}
    (mem : b ∈ n.bodies.zipIdx) : n.Sound (growWith isNullable first b) := by
  intro i set found t ht
  rw [FirstSets.growWith, List.getElem?_modify] at found
  obtain ⟨old, lookup, rfl⟩ := Option.map_eq_some_iff.1 found
  split at ht
  · rename_i same
    rcases OrderedSet.mem_insertAll.1 ht with ht | ht
    · exact sound i old lookup t ht
    · obtain ⟨v, place, body⟩ := getElem?_bodies.1 (List.mem_zipIdx_iff_getElem?.1 mem)
      have begins := leads_of_mem_collect nullable sound.ofSymbol b.1 ht
      rw [← body] at begins
      exact begins.of_step (.expand (same ▸ place))
  · exact sound i old lookup t ht

theorem Sound.grow (sound : n.Sound first)
    (nullable : ∀ s, isNullable s = true → n.Disappears (.symbol s)) :
    n.Sound (grow isNullable n.bodies first) := by
  rw [grow_eq]
  exact List.foldlRecOn n.bodies.zipIdx _ sound fun _ sound _ mem => sound.growWith nullable mem

end Rounds

theorem sound_ofNormalForm (n : NormalForm) : n.Sound (ofNormalForm n).first :=
  settle_induction n.Sound (fun _ sound => sound.grow fun _ => disappears_of_symbolNullable) _ _
    (sound_start n.bodies)

theorem mem_collectSeq_append {isNullable : Symbol → Bool} {first : List (OrderedSet Symbol)} :
    t ∈ collectSeq isNullable first (es ++ more) ↔ t ∈ collectSeq isNullable first es
      ∨ Expr.everyNullable isNullable es = true ∧ t ∈ collectSeq isNullable first more := by
  induction es with
  | nil => simp [collectSeq, Expr.everyNullable]
  | cons e es ih =>
    rw [List.cons_append, mem_collectSeq_cons, mem_collectSeq_cons, ih, Expr.everyNullable,
      Bool.and_eq_true, and_or_left, or_assoc, and_assoc]

theorem symbolNullable_of_body {i : ℕ} {v : Variable} (lookup : n.vars[i]? = some v)
    (gone : v.body.nullable (ofNormalForm n).symbolNullable = true) :
    (ofNormalForm n).symbolNullable (.rule i) = true := by
  have body : n.bodies[i]? = some v.body := getElem?_bodies.2 ⟨v, lookup, rfl⟩
  exact OrderedSet.contains_iff.2 (OrderedSet.mem_leastClosed_of_holds _ (i, v.body)
    (Numbering.mem_bodies_iff.2 body) gone)

/-- A step back from expressions that all count as empty comes to such expressions. -/
theorem LeftStep.everyNullable (step : n.LeftStep es fs)
    (h : Expr.everyNullable (ofNormalForm n).symbolNullable fs = true) :
    Expr.everyNullable (ofNormalForm n).symbolNullable es = true := by
  rw [Expr.everyNullable_eq_all] at h ⊢
  cases step with
  | expand lookup =>
    rw [List.all_cons, Bool.and_eq_true] at h ⊢
    exact ⟨symbolNullable_of_body lookup h.1, h.2⟩
  | delete lookup empty =>
    rw [List.all_cons, Bool.and_eq_true]
    exact ⟨emptyTerminal_lexical_iff.2 ⟨_, lookup, empty⟩, h⟩
  | seq =>
    rw [List.all_append, Bool.and_eq_true] at h
    rw [List.all_cons, Bool.and_eq_true, Expr.nullable, Expr.everyNullable_eq_all]
    exact h
  | choice mem =>
    rw [List.all_cons, Bool.and_eq_true] at h ⊢
    rw [Expr.nullable, Expr.someNullable_eq_any, List.any_eq_true]
    exact ⟨⟨_, mem, h.1⟩, h.2⟩
  | unroll =>
    rw [List.all_cons, Bool.and_eq_true] at h
    exact h.2
  | stop =>
    rw [List.all_cons, Bool.and_eq_true]
    exact ⟨rfl, h⟩
  | prec | aliased | field => exact h

/-- A step back keeps what expressions are found to begin with. -/
theorem LeftStep.mem_collectSeq (step : n.LeftStep es fs)
    (h : t ∈ collectSeq (ofNormalForm n).symbolNullable (ofNormalForm n).first fs) :
    t ∈ collectSeq (ofNormalForm n).symbolNullable (ofNormalForm n).first es := by
  cases step with
  | @expand i v rest lookup =>
    rcases mem_collectSeq_cons.1 h with h | ⟨gone, h⟩
    · have body : n.bodies[i]? = some v.body := getElem?_bodies.2 ⟨v, lookup, rfl⟩
      exact mem_collectSeq_cons.2 (.inl (mem_ofVariable body (OrderedSet.mem_ofList.2 h)))
    · exact mem_collectSeq_cons.2 (.inr ⟨symbolNullable_of_body lookup gone, h⟩)
  | delete lookup empty =>
    exact mem_collectSeq_cons.2 (.inr ⟨emptyTerminal_lexical_iff.2 ⟨_, lookup, empty⟩, h⟩)
  | seq => exact mem_collectSeq_cons.2 (mem_collectSeq_append.1 h)
  | @choice e members rest mem =>
    rcases mem_collectSeq_cons.1 h with h | ⟨gone, h⟩
    · refine mem_collectSeq_cons.2 (.inl ?_)
      rw [collect, collectChoice_eq_flatMap]
      exact List.mem_flatMap.2 ⟨e, mem, h⟩
    · refine mem_collectSeq_cons.2 (.inr ⟨?_, h⟩)
      rw [Expr.nullable, Expr.someNullable_eq_any, List.any_eq_true]
      exact ⟨e, mem, gone⟩
  | unroll =>
    rcases mem_collectSeq_cons.1 h with h | ⟨-, h⟩
    · exact mem_collectSeq_cons.2 (.inl h)
    · exact h
  | stop => exact mem_collectSeq_cons.2 (.inr ⟨rfl, h⟩)
  | prec | aliased | field => exact h

theorem everyNullable_of_expands (path : n.Expands es []) :
    Expr.everyNullable (ofNormalForm n).symbolNullable es = true := by
  induction path using ReflTransGen.head_induction_on with
  | refl => rfl
  | head step _ ih => exact step.everyNullable ih

theorem Leads.mem_collectSeq (h : n.Leads es t) :
    t ∈ collectSeq (ofNormalForm n).symbolNullable (ofNormalForm n).first es := by
  obtain ⟨terminal, rest, path⟩ := h
  induction path using ReflTransGen.head_induction_on with
  | refl =>
    refine mem_collectSeq_cons.2 (.inl ?_)
    cases t with
    | rule i => cases terminal
    | lexical i | external i => exact List.mem_singleton_self _
  | head step _ ih => exact step.mem_collectSeq ih

/-- An expression counts as empty exactly if it can go altogether. -/
theorem isNullable_iff_disappears (e : Expr) :
    (ofNormalForm n).isNullable e = true ↔ n.Disappears e := by
  constructor
  · exact disappears_of_nullable (fun _ => disappears_of_symbolNullable) e
  · intro path
    have all := everyNullable_of_expands path
    rw [Expr.everyNullable, Bool.and_eq_true] at all
    exact all.1

/-- The first terminals of an expression are those that it can begin with. -/
theorem mem_ofExpr_iff_beginsWith (e : Expr) (t : Symbol) :
    t ∈ (ofNormalForm n).ofExpr e ↔ n.BeginsWith e t := by
  rw [ofExpr, OrderedSet.mem_ofList]
  constructor
  · exact leads_of_mem_collect (fun _ => disappears_of_symbolNullable)
      (sound_ofNormalForm n).ofSymbol e
  · intro begins
    rcases mem_collectSeq_cons.1 begins.mem_collectSeq with found | ⟨-, none⟩
    · exact found
    · cases none

end NormalForm

end Productions
