import Productions.Proofs.Consistency
import Productions.Proofs.Recompilation.Converse

/-! Alternatives and tokens that are told apart. Alternatives are dropped and tokens are shared
while precedences still have names. What has been told apart by names only can become the same when
names are replaced by levels, and both copies stay. -/
namespace Productions

variable {levels : Levels}

namespace Expr

mutual

def choices : Expr → List (List Expr)
  | symbol _ => []
  | seq members => choicesAll members
  | choice members => members :: choicesAll members
  | repeated content | prec _ _ content | aliased content _ _ | field _ content => choices content

def choicesAll : List Expr → List (List Expr)
  | [] => []
  | e :: es => choices e ++ choicesAll es

end

theorem choicesAll_eq_flatMap (es : List Expr) : choicesAll es = es.flatMap choices := by
  induction es with
  | nil => rfl
  | cons e es ih => rw [choicesAll, ih, List.flatMap_cons]

def Distinct (e : Expr) : Prop := ∀ members ∈ e.choices, members.Nodup

theorem Canonical.distinct {e : Expr} (h : e.Canonical) : e.Distinct := by
  have all {members : List Expr} (ih : ∀ e ∈ members, e.Distinct) :
      ∀ ms ∈ choicesAll members, ms.Nodup := by
    intro ms mem
    rw [choicesAll_eq_flatMap] at mem
    obtain ⟨e, he, mem⟩ := List.mem_flatMap.1 mem
    exact ih e he ms mem
  induction h with
  | symbol => exact fun _ mem => absurd mem List.not_mem_nil
  | seq _ _ _ ih => exact all ih
  | choice _ _ distinct _ ih =>
    intro ms mem
    rcases List.mem_cons.1 mem with rfl | mem
    · exact distinct
    · exact all ih ms mem
  | repeated _ ih | prec _ ih | aliased _ ih | field _ ih => exact ih

theorem choices_resolveLevels (e : Expr) :
    (e.resolveLevels levels).choices = e.choices.map (List.map (resolveLevels levels)) := by
  have all {members : List Expr} (ih : ∀ e ∈ members,
      (e.resolveLevels levels).choices = e.choices.map (List.map (resolveLevels levels))) :
      choicesAll (members.map (resolveLevels levels))
        = (choicesAll members).map (List.map (resolveLevels levels)) := by
    rw [choicesAll_eq_flatMap, choicesAll_eq_flatMap, List.flatMap_map, List.map_flatMap]
    exact List.flatMap_congr ih
  induction e with
  | symbol => rfl
  | seq members ih => rw [resolveLevels, choices, resolveLevelsAll_eq_map, all ih, choices]
  | choice members ih =>
    rw [resolveLevels, choices, resolveLevelsAll_eq_map, all ih, choices, List.map_cons]
  | repeated _ ih | prec _ _ _ ih | aliased _ _ _ ih | field _ _ ih => exact ih

def KeptApart (levels : Levels) (e : Expr) : Prop := ∀ members ∈ e.choices,
  ∀ a ∈ members, ∀ b ∈ members, a.resolveLevels levels = b.resolveLevels levels → a = b

theorem Canonical.distinct_resolveLevels_iff {e : Expr} (h : e.Canonical) :
    (e.resolveLevels levels).Distinct ↔ e.KeptApart levels := by
  rw [Distinct, choices_resolveLevels, List.forall_mem_map]
  exact forall₂_congr fun members mem => List.nodup_map_iff_inj_on (h.distinct members mem)

end Expr

namespace Rule

mutual

def choices : Rule → List (List Rule)
  | terminal _ | symbol _ => []
  | seq members => choicesAll members
  | choice members => members :: choicesAll members
  | repeated content _ | optional content | token content _ | prec _ _ content
  | aliased content _ _ | field _ content => choices content

def choicesAll : List Rule → List (List Rule)
  | [] => []
  | r :: rs => choices r ++ choicesAll rs

end

theorem choicesAll_eq_flatMap (rules : List Rule) : choicesAll rules = rules.flatMap choices := by
  induction rules with
  | nil => rfl
  | cons r rs ih => rw [choicesAll, ih, List.flatMap_cons]

def Distinct (r : Rule) : Prop := ∀ members ∈ r.choices, members.Nodup

theorem Canonical.distinct {r : Rule} (h : r.Canonical) : r.Distinct := by
  have all {members : List Rule} (ih : ∀ r ∈ members, r.Distinct) :
      ∀ ms ∈ choicesAll members, ms.Nodup := by
    intro ms mem
    rw [choicesAll_eq_flatMap] at mem
    obtain ⟨r, hr, mem⟩ := List.mem_flatMap.1 mem
    exact ih r hr ms mem
  induction h with
  | terminal | symbol => exact fun _ mem => absurd mem List.not_mem_nil
  | seq _ _ _ ih => exact all ih
  | choice _ _ distinct _ ih =>
    intro ms mem
    rcases List.mem_cons.1 mem with rfl | mem
    · exact distinct
    · exact all ih ms mem
  | repeated _ ih | token _ _ ih | prec _ ih | aliased _ ih | field _ ih => exact ih

theorem choices_resolveLevels (r : Rule) :
    (r.resolveLevels levels).choices = r.choices.map (List.map (resolveLevels levels)) := by
  have all {members : List Rule} (ih : ∀ r ∈ members,
      (r.resolveLevels levels).choices = r.choices.map (List.map (resolveLevels levels))) :
      choicesAll (members.map (resolveLevels levels))
        = (choicesAll members).map (List.map (resolveLevels levels)) := by
    rw [choicesAll_eq_flatMap, choicesAll_eq_flatMap, List.flatMap_map, List.map_flatMap]
    exact List.flatMap_congr ih
  induction r with
  | terminal | symbol => rfl
  | seq members ih => rw [resolveLevels, choices, resolveLevelsAll_eq_map, all ih, choices]
  | choice members ih =>
    rw [resolveLevels, choices, resolveLevelsAll_eq_map, all ih, choices, List.map_cons]
  | repeated _ _ ih | optional _ ih | token _ _ ih | prec _ _ _ ih | aliased _ _ _ ih
  | field _ _ ih => exact ih

def KeptApart (levels : Levels) (r : Rule) : Prop := ∀ members ∈ r.choices,
  ∀ a ∈ members, ∀ b ∈ members, a.resolveLevels levels = b.resolveLevels levels → a = b

theorem Canonical.distinct_resolveLevels_iff {r : Rule} (h : r.Canonical) :
    (r.resolveLevels levels).Distinct ↔ r.KeptApart levels := by
  rw [Distinct, choices_resolveLevels, List.forall_mem_map]
  exact forall₂_congr fun members mem => List.nodup_map_iff_inj_on (h.distinct members mem)

end Rule

/-- Levels keep two annotations apart: they do not come to the same level and associativity unless
they are written the same. -/
def Levels.Apart (levels : Levels) (a b : Precedence × Assoc) : Prop :=
  levels.resolve a.1 a.2 = levels.resolve b.1 b.2 → a = b

theorem eq_of_map_eq {α β : Type} {f : α → β} {as bs : List α} (same : as.map f = bs.map f)
    (apart : ∀ a ∈ as, ∀ b ∈ bs, f a = f b → a = b) : as = bs := by
  refine List.ext_getElem (by simpa using congrArg List.length same) fun i first second => ?_
  have at_i := congrArg (·[i]?) same
  refine apart _ (List.getElem_mem first) _ (List.getElem_mem second) ?_
  simpa [List.getElem?_eq_getElem first, List.getElem?_eq_getElem second] using at_i

namespace Expr

mutual

def annotations : Expr → List (Precedence × Assoc)
  | symbol _ => []
  | seq members | choice members => annotationsAll members
  | prec value assoc content => (value, assoc) :: annotations content
  | repeated content | aliased content _ _ | field _ content => annotations content

def annotationsAll : List Expr → List (Precedence × Assoc)
  | [] => []
  | e :: es => annotations e ++ annotationsAll es

end

theorem mem_annotationsAll {es : List Expr} {a : Precedence × Assoc} :
    a ∈ annotationsAll es ↔ ∃ e ∈ es, a ∈ e.annotations := by
  induction es with
  | nil => simp [annotationsAll]
  | cons e es ih => simp [annotationsAll, ih]

/-- Expressions come to the same only if they are the same, as far as levels keep their annotations
apart. -/
theorem eq_of_resolveLevels_eq {e f : Expr}
    (same : e.resolveLevels levels = f.resolveLevels levels)
    (apart : ∀ a ∈ e.annotations, ∀ b ∈ f.annotations, levels.Apart a b) : e = f := by
  have all {es fs : List Expr}
      (ih : ∀ e ∈ es, ∀ f, e.resolveLevels levels = f.resolveLevels levels →
        (∀ a ∈ e.annotations, ∀ b ∈ f.annotations, levels.Apart a b) → e = f)
      (same : resolveLevelsAll levels es = resolveLevelsAll levels fs)
      (apart : ∀ a ∈ annotationsAll es, ∀ b ∈ annotationsAll fs, levels.Apart a b) : es = fs := by
    rw [resolveLevelsAll_eq_map, resolveLevelsAll_eq_map] at same
    refine eq_of_map_eq same fun e he f hf same => ih e he f same fun a ha b hb => ?_
    exact apart a (mem_annotationsAll.2 ⟨e, he, ha⟩) b (mem_annotationsAll.2 ⟨f, hf, hb⟩)
  induction e generalizing f with
  | symbol =>
    cases f <;> simp only [resolveLevels, reduceCtorEq] at same
    exact same
  | seq members ih =>
    cases f <;> simp only [resolveLevels, reduceCtorEq, seq.injEq] at same
    exact congrArg seq (all (fun e he _ => ih e he) same apart)
  | choice members ih =>
    cases f <;> simp only [resolveLevels, reduceCtorEq, choice.injEq] at same
    exact congrArg choice (all (fun e he _ => ih e he) same apart)
  | repeated content ih =>
    cases f <;> simp only [resolveLevels, reduceCtorEq, repeated.injEq] at same
    exact congrArg repeated (ih same apart)
  | prec value assoc content ih =>
    cases f <;> simp only [resolveLevels, reduceCtorEq, prec.injEq] at same
    obtain ⟨level, side, inside⟩ := same
    obtain ⟨rfl, rfl⟩ := Prod.mk.inj (apart _ (List.mem_cons_self ..) _ (List.mem_cons_self ..)
      (Prod.ext level side))
    rw [ih inside fun a ha b hb => apart a (.tail _ ha) b (.tail _ hb)]
  | aliased content value named ih =>
    cases f <;> simp only [resolveLevels, reduceCtorEq, aliased.injEq] at same
    obtain ⟨inside, rfl, rfl⟩ := same
    rw [ih inside apart]
  | field name content ih =>
    cases f <;> simp only [resolveLevels, reduceCtorEq, field.injEq] at same
    obtain ⟨rfl, inside⟩ := same
    rw [ih inside apart]

theorem mem_annotations_of_choices {e : Expr} {members : List Expr} (mem : members ∈ e.choices)
    {f : Expr} (hf : f ∈ members) {a : Precedence × Assoc} (ha : a ∈ f.annotations) :
    a ∈ e.annotations := by
  have all {es : List Expr} (ih : ∀ e ∈ es, members ∈ e.choices → a ∈ e.annotations)
      (mem : members ∈ choicesAll es) : a ∈ annotationsAll es := by
    rw [choicesAll_eq_flatMap] at mem
    obtain ⟨e, he, mem⟩ := List.mem_flatMap.1 mem
    exact mem_annotationsAll.2 ⟨e, he, ih e he mem⟩
  induction e with
  | symbol => exact absurd mem List.not_mem_nil
  | seq _ ih => exact all ih mem
  | choice _ ih =>
    rcases List.mem_cons.1 mem with rfl | mem
    · exact mem_annotationsAll.2 ⟨f, hf, ha⟩
    · exact all ih mem
  | prec _ _ _ ih => exact .tail _ (ih mem)
  | repeated _ ih | aliased _ _ _ ih | field _ _ ih => exact ih mem

theorem keptApart_of_annotations {e : Expr}
    (apart : ∀ a ∈ e.annotations, ∀ b ∈ e.annotations, levels.Apart a b) : e.KeptApart levels :=
  fun _ mem _ hf _ hg same => eq_of_resolveLevels_eq same fun _ ha _ hb =>
    apart _ (mem_annotations_of_choices mem hf ha) _ (mem_annotations_of_choices mem hg hb)

end Expr

namespace Rule

mutual

def annotations : Rule → List (Precedence × Assoc)
  | terminal _ | symbol _ => []
  | seq members | choice members => annotationsAll members
  | prec value assoc content => (value, assoc) :: annotations content
  | repeated content _ | optional content | token content _ | aliased content _ _
  | field _ content => annotations content

def annotationsAll : List Rule → List (Precedence × Assoc)
  | [] => []
  | r :: rs => annotations r ++ annotationsAll rs

end

theorem mem_annotationsAll {rules : List Rule} {a : Precedence × Assoc} :
    a ∈ annotationsAll rules ↔ ∃ r ∈ rules, a ∈ r.annotations := by
  induction rules with
  | nil => simp [annotationsAll]
  | cons r rs ih => simp [annotationsAll, ih]

/-- Rules that are resolved alike are the same, as far as levels keep their annotations apart. -/
theorem eq_of_resolveLevels_eq {r t : Rule}
    (same : r.resolveLevels levels = t.resolveLevels levels)
    (apart : ∀ a ∈ r.annotations, ∀ b ∈ t.annotations, levels.Apart a b) : r = t := by
  have all {rs ts : List Rule}
      (ih : ∀ r ∈ rs, ∀ t, r.resolveLevels levels = t.resolveLevels levels →
        (∀ a ∈ r.annotations, ∀ b ∈ t.annotations, levels.Apart a b) → r = t)
      (same : resolveLevelsAll levels rs = resolveLevelsAll levels ts)
      (apart : ∀ a ∈ annotationsAll rs, ∀ b ∈ annotationsAll ts, levels.Apart a b) : rs = ts := by
    rw [resolveLevelsAll_eq_map, resolveLevelsAll_eq_map] at same
    refine eq_of_map_eq same fun r hr t ht same => ih r hr t same fun a ha b hb => ?_
    exact apart a (mem_annotationsAll.2 ⟨r, hr, ha⟩) b (mem_annotationsAll.2 ⟨t, ht, hb⟩)
  induction r generalizing t with
  | terminal | symbol =>
    cases t <;> simp only [resolveLevels, reduceCtorEq] at same
    exact same
  | seq members ih =>
    cases t <;> simp only [resolveLevels, reduceCtorEq, seq.injEq] at same
    exact congrArg seq (all (fun r hr _ => ih r hr) same apart)
  | choice members ih =>
    cases t <;> simp only [resolveLevels, reduceCtorEq, choice.injEq] at same
    exact congrArg choice (all (fun r hr _ => ih r hr) same apart)
  | repeated content repetition ih =>
    cases t <;> simp only [resolveLevels, reduceCtorEq, repeated.injEq] at same
    obtain ⟨inside, rfl⟩ := same
    rw [ih inside apart]
  | optional content ih =>
    cases t <;> simp only [resolveLevels, reduceCtorEq, optional.injEq] at same
    exact congrArg optional (ih same apart)
  | token content immediate ih =>
    cases t <;> simp only [resolveLevels, reduceCtorEq, token.injEq] at same
    obtain ⟨inside, rfl⟩ := same
    rw [ih inside apart]
  | prec value assoc content ih =>
    cases t <;> simp only [resolveLevels, reduceCtorEq, prec.injEq] at same
    obtain ⟨level, side, inside⟩ := same
    obtain ⟨rfl, rfl⟩ := Prod.mk.inj (apart _ (List.mem_cons_self ..) _ (List.mem_cons_self ..)
      (Prod.ext level side))
    rw [ih inside fun a ha b hb => apart a (.tail _ ha) b (.tail _ hb)]
  | aliased content value named ih =>
    cases t <;> simp only [resolveLevels, reduceCtorEq, aliased.injEq] at same
    obtain ⟨inside, rfl, rfl⟩ := same
    rw [ih inside apart]
  | field name content ih =>
    cases t <;> simp only [resolveLevels, reduceCtorEq, field.injEq] at same
    obtain ⟨rfl, inside⟩ := same
    rw [ih inside apart]

theorem mem_annotations_of_choices {r : Rule} {members : List Rule} (mem : members ∈ r.choices)
    {t : Rule} (ht : t ∈ members) {a : Precedence × Assoc} (ha : a ∈ t.annotations) :
    a ∈ r.annotations := by
  have all {rules : List Rule} (ih : ∀ r ∈ rules, members ∈ r.choices → a ∈ r.annotations)
      (mem : members ∈ choicesAll rules) : a ∈ annotationsAll rules := by
    rw [choicesAll_eq_flatMap] at mem
    obtain ⟨r, hr, mem⟩ := List.mem_flatMap.1 mem
    exact mem_annotationsAll.2 ⟨r, hr, ih r hr mem⟩
  induction r with
  | terminal | symbol => exact absurd mem List.not_mem_nil
  | seq _ ih => exact all ih mem
  | choice _ ih =>
    rcases List.mem_cons.1 mem with rfl | mem
    · exact mem_annotationsAll.2 ⟨t, ht, ha⟩
    · exact all ih mem
  | prec _ _ _ ih => exact .tail _ (ih mem)
  | repeated _ _ ih | optional _ ih | token _ _ ih | aliased _ _ _ ih | field _ _ ih => exact ih mem

theorem keptApart_of_annotations {r : Rule}
    (apart : ∀ a ∈ r.annotations, ∀ b ∈ r.annotations, levels.Apart a b) : r.KeptApart levels :=
  fun _ mem _ ht _ hu same => eq_of_resolveLevels_eq same fun _ ha _ hb =>
    apart _ (mem_annotations_of_choices mem ht ha) _ (mem_annotations_of_choices mem hu hb)

end Rule

namespace Lexicon

def KeptApart (levels : Levels) (R : List LexicalEntry) : Prop :=
  ∀ e ∈ R, ∀ f ∈ R, (settleEntry levels e).Alike (settleEntry levels f) → e.content = f.content

theorem Distinct.settle_iff {R : List LexicalEntry} (h : Distinct R) :
    Distinct (R.map (settleEntry levels)) ↔ KeptApart levels R := by
  constructor
  · intro settled e he f hf alike
    obtain ⟨i, first⟩ := List.getElem?_of_mem he
    obtain ⟨j, second⟩ := List.getElem?_of_mem hf
    obtain rfl : i = j := settled.eq_of_alike
      (by rw [List.getElem?_map, first]; rfl) (by rw [List.getElem?_map, second]; rfl) alike
    rw [Option.some.inj (first.symm.trans second)]
  · intro apart
    rw [Distinct, List.pairwise_map]
    refine h.imp_of_mem fun he hf unlike alike => unlike ?_
    exact ⟨alike.1, alike.2.1, apart _ he _ hf alike, alike.2.2.2⟩

end Lexicon

namespace NormalForm

/-- Levels keep apart what has been told apart in a normal form. -/
structure KeptApart (levels : Levels) (n : NormalForm) : Prop where
  bodies : ∀ v ∈ n.vars, v.body.KeptApart levels
  contents : ∀ entry ∈ n.lexicon, entry.content.KeptApart levels
  entries : Lexicon.KeptApart levels n.lexicon

def annotations (n : NormalForm) : List (Precedence × Assoc) :=
  n.vars.flatMap (fun v => v.body.annotations)
    ++ n.lexicon.flatMap (fun entry => entry.content.annotations)

theorem keptApart_of_annotations {n : NormalForm}
    (apart : ∀ a ∈ n.annotations, ∀ b ∈ n.annotations, levels.Apart a b) : n.KeptApart levels := by
  have body {v : Variable} (hv : v ∈ n.vars) {a : Precedence × Assoc}
      (ha : a ∈ v.body.annotations) : a ∈ n.annotations :=
    List.mem_append_left _ (List.mem_flatMap.2 ⟨v, hv, ha⟩)
  have content {entry : LexicalEntry} (he : entry ∈ n.lexicon) {a : Precedence × Assoc}
      (ha : a ∈ entry.content.annotations) : a ∈ n.annotations :=
    List.mem_append_right _ (List.mem_flatMap.2 ⟨entry, he, ha⟩)
  exact {
    bodies := fun v hv => Expr.keptApart_of_annotations fun a ha b hb =>
      apart a (body hv ha) b (body hv hb)
    contents := fun entry he => Rule.keptApart_of_annotations fun a ha b hb =>
      apart a (content he ha) b (content he hb)
    entries := fun e he f hf alike => Rule.eq_of_resolveLevels_eq alike.2.2.1 fun a ha b hb =>
      apart a (content he ha) b (content hf hb) }

end NormalForm

/-- No choice has an alternative twice, in a variable or in a token, and no two anonymous entries
have the same content and the same flag. -/
structure CompiledGrammar.Distinct (c : CompiledGrammar) : Prop where
  bodies : ∀ v ∈ c.vars, v.body.Distinct
  contents : ∀ entry ∈ c.lexicon, entry.content.Distinct
  entries : Lexicon.Distinct c.lexicon

variable {g : Grammar} {settings : Settings} {c : CompiledGrammar}

namespace Grammar.Compiles

variable {start : String} (h : g.Compiles settings start c)

include h

theorem bodies_distinct_iff : (∀ v ∈ c.vars, v.body.Distinct)
    ↔ ∀ v ∈ (g.normalForm start).vars, v.body.KeptApart (g.levels settings) := by
  have vars : (g.normalForm start).vars = _ := h.partsIn.vars
  rw [h.vars_eq, vars, List.forall_mem_map, List.forall_mem_map]
  exact forall₂_congr fun info _ => (canonical_bodyIn g start info).distinct_resolveLevels_iff

theorem contents_distinct_iff : (∀ entry ∈ c.lexicon, entry.content.Distinct)
    ↔ ∀ entry ∈ (g.lexicon start).entries, entry.content.KeptApart (g.levels settings) := by
  have lexicon : c.lexicon = (g.lexicon start).entries.map (Lexicon.settleEntry _) := h.lexicon_eq
  rw [lexicon, List.forall_mem_map]
  exact forall₂_congr fun entry mem => (h.canonical_entries entry mem).distinct_resolveLevels_iff

theorem entries_distinct_iff : Lexicon.Distinct c.lexicon
    ↔ Lexicon.KeptApart (g.levels settings) (g.lexicon start).entries := by
  rw [h.lexicon_eq]
  exact h.distinct_entries.settle_iff

end Grammar.Compiles

namespace CompiledGrammar

/-- A compiled grammar has nothing twice exactly if its levels keep apart what had been told apart
before names were replaced by them. They do so if no two annotations that are written differently
come to the same. -/
theorem distinct_iff (compiled : g.compile settings = .ok c) :
    (c.Distinct ↔ (g.normalForm c.start).KeptApart c.levels)
    ∧ ((∀ a ∈ (g.normalForm c.start).annotations, ∀ b ∈ (g.normalForm c.start).annotations,
      c.levels.Apart a b) → c.Distinct) := by
  obtain ⟨start, h⟩ := Grammar.compile_eq_ok compiled
  have levels : c.levels = g.levels settings := by
    rw [h.result]
    rfl
  rw [h.start_eq, levels]
  have distinct : c.Distinct ↔ (g.normalForm start).KeptApart (g.levels settings) := by
    constructor
    · rintro ⟨bodies, contents, entries⟩
      exact ⟨h.bodies_distinct_iff.1 bodies, h.contents_distinct_iff.1 contents,
        h.entries_distinct_iff.1 entries⟩
    · rintro ⟨bodies, contents, entries⟩
      exact ⟨h.bodies_distinct_iff.2 bodies, h.contents_distinct_iff.2 contents,
        h.entries_distinct_iff.2 entries⟩
  exact ⟨distinct, fun apart => distinct.2 (NormalForm.keptApart_of_annotations apart)⟩

def sumsAnd (other : Rule) : Grammar where
  name := "sums"
  rules := [⟨"expr", .choice [.prec (.name "add") .left
    (.seq [.symbol "expr", .terminal (.literal "+"), .symbol "expr"]), other,
    .terminal (.literal "n")], false⟩]
  extras := []
  precedences := [[.name "mul", .name "add"]]
  conflicts := []
  externals := []
  inlined := []
  supertypes := []
  word := none

def sumsAndProducts : Grammar :=
  sumsAnd (.prec (.name "mul") .left
    (.seq [.symbol "expr", .terminal (.literal "*"), .symbol "expr"]))

theorem distinct_sumsAndProducts :
    ∃ c, sumsAndProducts.compile .default = .ok c ∧ c.Distinct := by
  obtain ⟨c, compiled, resolved⟩ : ∃ c, sumsAndProducts.compile .default = .ok c
      ∧ ((sumsAndProducts.normalForm c.start).annotations.map fun a => c.levels.resolve a.1 a.2)
        = [(.integer 1, .left), (.integer 2, .left)] :=
    exists_ok_of_toOption_map (by cbv)
  refine ⟨c, compiled, (distinct_iff compiled).2 (List.inj_on_of_nodup_map ?_)⟩
  rw [resolved]
  decide

/-- The sum again, where its level is written as a number. -/
def sumsTwice : Grammar :=
  sumsAnd (.prec (.integer 1) .left
    (.seq [.symbol "expr", .terminal (.literal "+"), .symbol "expr"]))

/-- Once the name is replaced by its level, the choice has the sum twice. -/
theorem exists_sum_twice : ∃ c, sumsTwice.compile .default = .ok c ∧ ¬ c.Distinct := by
  obtain ⟨c, compiled, verdicts⟩ : ∃ c, sumsTwice.compile .default = .ok c
      ∧ (c.vars.flatMap fun v => v.body.choices.map (decide ·.Nodup)) = [false] :=
    exists_ok_of_toOption_map (by cbv)
  have twice : false ∈ c.vars.flatMap fun v => v.body.choices.map (decide ·.Nodup) := by
    rw [verdicts]
    exact List.mem_singleton_self _
  obtain ⟨v, hv, twice⟩ := List.mem_flatMap.1 twice
  obtain ⟨members, mem, twice⟩ := List.mem_map.1 twice
  exact ⟨c, compiled, fun distinct => of_decide_eq_false twice (distinct.bodies v hv members mem)⟩

end CompiledGrammar

end Productions
