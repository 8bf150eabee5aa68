import Productions.Proofs.Canonical
import Productions.Proofs.Inlining.Bodies
import Productions.Proofs.Lowering.Shape
import Productions.Validation.Checks

/-! What rules and expressions repeat. Flattening and dropping repeated members lose no repetition,
so every repetition of a hidden rule is found again wherever the rule was expanded, and lowering
leaves it in place or takes it to the content of a token. -/
namespace Productions

namespace Rule

mutual

/-- The contents of all repetitions, also of those inside tokens. -/
def repeats : Rule → List Rule
  | terminal _ | symbol _ => []
  | seq members | choice members => repeatsAll members
  | repeated content _ => content :: repeats content
  | optional content | token content _ | prec _ _ content | aliased content _ _
  | field _ content => repeats content

def repeatsAll : List Rule → List Rule
  | [] => []
  | rule :: rules => repeats rule ++ repeatsAll rules

end

variable {c : Rule}

theorem mem_repeatsAll {rules : List Rule} : c ∈ repeatsAll rules ↔ ∃ r ∈ rules, c ∈ r.repeats := by
  induction rules with
  | nil => simp [repeatsAll]
  | cons r rs ih => simp [repeatsAll, ih]

theorem mem_repeats_seqParts (r : Rule) :
    c ∈ r.repeats ↔ ∃ part ∈ r.seqParts, c ∈ part.repeats := by
  cases r <;> simp [seqParts, repeats, mem_repeatsAll]

theorem mem_repeats_choiceParts (r : Rule) :
    c ∈ r.repeats ↔ ∃ part ∈ r.choiceParts, c ∈ part.repeats := by
  cases r <;> simp [choiceParts, repeats, mem_repeatsAll]

theorem mem_repeats_makeSeq {rules : List Rule} :
    c ∈ (makeSeq rules).repeats ↔ ∃ r ∈ rules, c ∈ r.repeats := by
  have flat : (∃ part ∈ rules.flatMap seqParts, c ∈ part.repeats) ↔ ∃ r ∈ rules, c ∈ r.repeats :=
    exists_mem_parts_iff mem_repeats_seqParts
  rw [← flat]
  unfold makeSeq
  split
  · rename_i r h
    simp [h]
  · rw [repeats, mem_repeatsAll]

theorem mem_repeats_makeChoice {rules : List Rule} :
    c ∈ (makeChoice rules).repeats ↔ ∃ r ∈ rules, c ∈ r.repeats := by
  have flat : (∃ part ∈ (OrderedSet.ofList (rules.flatMap choiceParts)).toList,
      c ∈ part.repeats) ↔ ∃ r ∈ rules, c ∈ r.repeats := exists_part_iff mem_repeats_choiceParts
  rw [← flat]
  unfold makeChoice
  split
  · rename_i r h
    simp [h]
  · rw [repeats, mem_repeatsAll]

theorem repeats_makeToken (immediate : Bool) (r : Rule) :
    (makeToken immediate r).repeats = r.repeats := by
  cases r <;> simp [makeToken, repeats]

/-- Canonical form keeps every repetition, in canonical form. -/
theorem mem_repeats_canonicalize {r : Rule} (h : c ∈ r.repeats) :
    c.canonicalize ∈ r.canonicalize.repeats := by
  induction r with
  | terminal | symbol => cases h
  | seq members ih =>
    obtain ⟨m, hm, hc⟩ := mem_repeatsAll.1 h
    rw [canonicalize, canonicalizeAll_eq_map, mem_repeats_makeSeq]
    exact ⟨m.canonicalize, List.mem_map_of_mem hm, ih m hm hc⟩
  | choice members ih =>
    obtain ⟨m, hm, hc⟩ := mem_repeatsAll.1 h
    rw [canonicalize, canonicalizeAll_eq_map, mem_repeats_makeChoice]
    exact ⟨m.canonicalize, List.mem_map_of_mem hm, ih m hm hc⟩
  | repeated content repetition ih =>
    have inner : c.canonicalize ∈ (repeated content.canonicalize .zeroOrMore).repeats := by
      rcases List.mem_cons.1 h with rfl | hc
      · exact List.mem_cons_self
      · exact List.mem_cons_of_mem _ (ih hc)
    cases repetition with
    | zeroOrMore => exact inner
    | oneOrMore => exact mem_repeats_makeSeq.2 ⟨_, by simp, inner⟩
  | optional content ih => exact mem_repeats_makeChoice.2 ⟨_, by simp, ih h⟩
  | token content immediate ih =>
    rw [canonicalize, repeats_makeToken]
    exact ih h
  | prec _ _ _ ih | aliased _ _ _ ih | field _ _ ih => exact ih h

theorem Canonical.of_mem_repeats {r : Rule} (h : Canonical r) (mem : c ∈ r.repeats) :
    Canonical c := by
  induction h with
  | terminal | symbol => cases mem
  | seq _ _ _ ih | choice _ _ _ _ ih =>
    obtain ⟨m, hm, hc⟩ := mem_repeatsAll.1 mem
    exact ih m hm hc
  | repeated inner ih =>
    rcases List.mem_cons.1 mem with rfl | hc
    · exact inner
    · exact ih hc
  | token _ _ ih | prec _ ih | aliased _ ih | field _ ih => exact ih mem

/-- The repetitions of what a hidden name is replaced by are kept. -/
theorem mem_repeats_unfoldNames {hidden : String → Bool} {expansions : String → Rule} {k : String}
    (isHidden : hidden k = true) (hc : c ∈ (expansions k).repeats) {r : Rule}
    (h : k ∈ r.occurrences) : c ∈ (r.unfoldNames hidden expansions).repeats := by
  induction r with
  | terminal => cases h
  | symbol name =>
    obtain rfl := List.mem_singleton.1 h
    rwa [unfoldNames, if_pos isHidden]
  | seq members ih =>
    obtain ⟨m, hm, hk⟩ := mem_occurrencesAll.1 h
    rw [unfoldNames, unfoldAll_eq_map, mem_repeats_makeSeq]
    exact ⟨_, List.mem_map_of_mem hm, ih m hm hk⟩
  | choice members ih =>
    obtain ⟨m, hm, hk⟩ := mem_occurrencesAll.1 h
    rw [unfoldNames, unfoldAll_eq_map, mem_repeats_makeChoice]
    exact ⟨_, List.mem_map_of_mem hm, ih m hm hk⟩
  | repeated _ _ ih => exact List.mem_cons_of_mem _ (ih h)
  | optional _ ih | token _ _ ih | prec _ _ _ ih | aliased _ _ _ ih | field _ _ ih => exact ih h

theorem mem_occurrences_of_repeats {k : String} (hk : k ∈ c.occurrences) {r : Rule}
    (h : c ∈ r.repeats) : k ∈ r.occurrences := by
  induction r with
  | terminal | symbol => cases h
  | seq members ih | choice members ih =>
    obtain ⟨m, hm, hc⟩ := mem_repeatsAll.1 h
    exact mem_occurrencesAll.2 ⟨m, hm, ih m hm hc⟩
  | repeated content _ ih =>
    rcases List.mem_cons.1 h with rfl | hc
    · exact hk
    · exact ih hc
  | optional _ ih | token _ _ ih | prec _ _ _ ih | aliased _ _ _ ih | field _ _ ih => exact ih h

end Rule

namespace TokenContent

theorem closeAll_eq_map (replace : String → Rule) (rules : List Rule) :
    closeAll replace rules = rules.map (close replace) := by
  induction rules with
  | nil => rfl
  | cons r rs ih => rw [closeAll, ih, List.map_cons]

theorem mem_repeats_close {replace : String → Rule} {c r : Rule} (h : c ∈ r.repeats) :
    close replace c ∈ (close replace r).repeats := by
  induction r with
  | terminal | symbol => cases h
  | seq members ih | choice members ih =>
    obtain ⟨m, hm, hc⟩ := Rule.mem_repeatsAll.1 h
    rw [close, Rule.repeats, closeAll_eq_map, Rule.mem_repeatsAll]
    exact ⟨_, List.mem_map_of_mem hm, ih m hm hc⟩
  | repeated content _ ih =>
    rcases List.mem_cons.1 h with rfl | hc
    · exact List.mem_cons_self
    · exact List.mem_cons_of_mem _ (ih hc)
  | optional _ ih | token _ _ ih | prec _ _ _ ih | aliased _ _ _ ih | field _ _ ih => exact ih h

theorem repeats_split (r : Rule) : (split r).1.repeats = r.repeats := by
  induction r with
  | prec _ _ content ih =>
    rw [split]
    exact ih
  | _ => rfl

end TokenContent

namespace Inlining

/-- What a hidden rule repeats is repeated in every rule that it can be reached from, once that
rule has been inlined. -/
theorem mem_repeats_of_reaches {t : SymbolTable} {m : OrderedMap String Inlined} {r c : Rule}
    {k : String} (reaches : Reaches t r k)
    (expanded : ∀ j ∈ r.occurrences, t.isInlined j = true → Expanded t m j)
    (hc : c ∈ (ruleIn m k).repeats) :
    c ∈ ((r.unfoldNames t.isInlined (ruleIn m)).canonicalize).repeats := by
  have canonical : ∀ {j : String}, Expanded t m j → Rule.Canonical (ruleIn m j) := by
    rintro j ⟨_, entry, rule, _, _⟩
    rw [ruleIn_eq entry, rule]
    exact Rule.canonical_canonicalize _
  have kept : ∀ {r : Rule} {j : String}, j ∈ r.occurrences → t.isInlined j = true →
      Expanded t m j → c ∈ (ruleIn m j).repeats →
      c ∈ ((r.unfoldNames t.isInlined (ruleIn m)).canonicalize).repeats := by
    intro r j hj hidden expanded hc
    have own := ((canonical expanded).of_mem_repeats hc).canonicalize_eq
    rw [← own]
    exact Rule.mem_repeats_canonicalize (Rule.mem_repeats_unfoldNames hidden hc hj)
  induction reaches with
  | here mem hidden => exact kept mem hidden (expanded _ mem hidden) hc
  | @through r j k info mem hidden get rest ih =>
    have whole := expanded j mem hidden
    obtain ⟨get', entry, rule, -, inner⟩ := id whole
    obtain rfl := Option.some.inj (get'.symm.trans get)
    refine kept mem hidden whole ?_
    rw [ruleIn_eq entry, rule]
    exact ih inner hc

end Inlining

namespace Expr

mutual

def repeats : Expr → List Expr
  | symbol _ => []
  | seq members | choice members => repeatsAll members
  | repeated content => content :: repeats content
  | prec _ _ content | aliased content _ _ | field _ content => repeats content

def repeatsAll : List Expr → List Expr
  | [] => []
  | e :: es => repeats e ++ repeatsAll es

end

variable {c : Expr}

theorem mem_repeatsAll {es : List Expr} : c ∈ repeatsAll es ↔ ∃ e ∈ es, c ∈ e.repeats := by
  induction es with
  | nil => simp [repeatsAll]
  | cons e es ih => simp [repeatsAll, ih]

theorem mem_repeats_makeSeq {es : List Expr} :
    c ∈ (makeSeq es).repeats ↔ ∃ e ∈ es, c ∈ e.repeats := by
  have flat : (∃ part ∈ es.flatMap seqParts, c ∈ part.repeats) ↔ ∃ e ∈ es, c ∈ e.repeats :=
    exists_mem_parts_iff fun e => by cases e <;> simp [seqParts, repeats, mem_repeatsAll]
  rw [← flat]
  unfold makeSeq
  split
  · rename_i e h
    simp [h]
  · rw [repeats, mem_repeatsAll]

theorem mem_repeats_makeChoice {es : List Expr} :
    c ∈ (makeChoice es).repeats ↔ ∃ e ∈ es, c ∈ e.repeats := by
  have flat : (∃ part ∈ (OrderedSet.ofList (es.flatMap choiceParts)).toList, c ∈ part.repeats)
      ↔ ∃ e ∈ es, c ∈ e.repeats := exists_part_iff fun e => by
    cases e <;> simp [choiceParts, repeats, mem_repeatsAll]
  rw [← flat]
  unfold makeChoice
  split
  · rename_i e h
    simp [h]
  · rw [repeats, mem_repeatsAll]

theorem hasEmptyRepeat_iff {isNullable : Symbol → Bool} (e : Expr) :
    Validation.hasEmptyRepeat isNullable e = true
      ↔ ∃ c ∈ e.repeats, c.nullable isNullable = true := by
  have anyOf (es : List Expr) (ih : ∀ e ∈ es, Validation.hasEmptyRepeat isNullable e = true
      ↔ ∃ c ∈ e.repeats, c.nullable isNullable = true) :
      Validation.anyHasEmptyRepeat isNullable es = true
        ↔ ∃ c ∈ repeatsAll es, c.nullable isNullable = true := by
    induction es with
    | nil => simp [Validation.anyHasEmptyRepeat, repeatsAll]
    | cons e es ihs =>
      rw [Validation.anyHasEmptyRepeat, Bool.or_eq_true, ih e (by simp),
        ihs fun e he => ih e (by simp [he])]
      simp only [repeatsAll, List.mem_append, or_and_right, exists_or]
  induction e with
  | symbol => simp [Validation.hasEmptyRepeat, repeats]
  | seq members ih | choice members ih => exact anyOf members ih
  | repeated content ih => simp [Validation.hasEmptyRepeat, repeats, ih]
  | prec _ _ _ ih | aliased _ _ _ ih | field _ _ ih => exact ih

end Expr

theorem Rule.hasEmptyTokenRepeat_iff (r : Rule) : Validation.hasEmptyTokenRepeat r = true
    ↔ ∃ c ∈ r.repeats, (c.nullable fun _ => false) = true := by
  have anyOf (rules : List Rule) (ih : ∀ r ∈ rules, Validation.hasEmptyTokenRepeat r = true
      ↔ ∃ c ∈ r.repeats, (c.nullable fun _ => false) = true) :
      Validation.anyHasEmptyTokenRepeat rules = true
        ↔ ∃ c ∈ repeatsAll rules, (c.nullable fun _ => false) = true := by
    induction rules with
    | nil => simp [Validation.anyHasEmptyTokenRepeat, repeatsAll]
    | cons r rs ihs =>
      rw [Validation.anyHasEmptyTokenRepeat, Bool.or_eq_true, ih r (by simp),
        ihs fun r hr => ih r (by simp [hr])]
      simp only [repeatsAll, List.mem_append, or_and_right, exists_or]
  induction r with
  | terminal | symbol => simp [Validation.hasEmptyTokenRepeat, repeats]
  | seq members ih | choice members ih => exact anyOf members ih
  | repeated content _ ih => simp [Validation.hasEmptyTokenRepeat, repeats, ih]
  | optional _ ih | token _ _ ih | prec _ _ _ ih | aliased _ _ _ ih | field _ _ ih => exact ih

namespace Naming

variable (n : Naming) (L : Lexicon)

theorem loweredAll_eq_map (rules : List Rule) :
    n.loweredAll L rules = rules.map (n.lowered L) := by
  induction rules with
  | nil => rfl
  | cons r rs ih => rw [loweredAll, ih, List.map_cons]

theorem repeats_getD_symbol (s : Option Symbol) :
    ((s.map Expr.symbol).getD .blank).repeats = [] := by
  cases s <;> rfl

variable {n L}

/-- A repetition stays where it is, or belongs to the content of a token. -/
theorem mem_repeats_lowered {r c : Rule} (h : c ∈ r.repeats) :
    n.lowered L c ∈ (n.lowered L r).repeats
      ∨ ∃ content immediate, .token content immediate ∈ r.leaves ∧ c ∈ content.repeats := by
  induction r with
  | terminal | symbol => cases h
  | seq members ih =>
    obtain ⟨m, hm, hc⟩ := Rule.mem_repeatsAll.1 h
    rcases ih m hm hc with stays | ⟨content, immediate, leaf, hc⟩
    · rw [lowered, loweredAll_eq_map, Expr.mem_repeats_makeSeq]
      exact .inl ⟨_, List.mem_map_of_mem hm, stays⟩
    · exact .inr ⟨content, immediate, Rule.mem_leavesAll.2 ⟨m, hm, leaf⟩, hc⟩
  | choice members ih =>
    obtain ⟨m, hm, hc⟩ := Rule.mem_repeatsAll.1 h
    rcases ih m hm hc with stays | ⟨content, immediate, leaf, hc⟩
    · rw [lowered, loweredAll_eq_map, Expr.mem_repeats_makeChoice]
      exact .inl ⟨_, List.mem_map_of_mem hm, stays⟩
    · exact .inr ⟨content, immediate, Rule.mem_leavesAll.2 ⟨m, hm, leaf⟩, hc⟩
  | repeated content _ ih =>
    rcases List.mem_cons.1 h with rfl | hc
    · exact .inl List.mem_cons_self
    · exact (ih hc).imp_left (List.mem_cons_of_mem _)
  | token content immediate => exact .inr ⟨content, immediate, List.mem_cons_self, h⟩
  | optional _ ih | prec _ _ _ ih | aliased _ _ _ ih | field _ _ ih => exact ih h

theorem exists_of_mem_repeats_lowered {r : Rule} {e : Expr} (h : e ∈ (n.lowered L r).repeats) :
    ∃ c ∈ r.repeats, e = n.lowered L c ∧ (∀ leaf ∈ c.leaves, leaf ∈ r.leaves)
      ∧ (r.isPlain = true → c.isPlain = true) := by
  have member (members : List Rule) (ih : ∀ m ∈ members, e ∈ (n.lowered L m).repeats →
      ∃ c ∈ m.repeats, e = n.lowered L c ∧ (∀ leaf ∈ c.leaves, leaf ∈ m.leaves)
        ∧ (m.isPlain = true → c.isPlain = true))
      (h : ∃ e' ∈ n.loweredAll L members, e ∈ e'.repeats) :
      ∃ c ∈ Rule.repeatsAll members, e = n.lowered L c
        ∧ (∀ leaf ∈ c.leaves, leaf ∈ Rule.leavesAll members)
        ∧ (Rule.arePlain members = true → c.isPlain = true) := by
    obtain ⟨_, he, mem⟩ := h
    rw [loweredAll_eq_map] at he
    obtain ⟨m, hm, rfl⟩ := List.mem_map.1 he
    obtain ⟨c, hc, same, leaves, plain⟩ := ih m hm mem
    exact ⟨c, Rule.mem_repeatsAll.2 ⟨m, hm, hc⟩, same,
      fun leaf hl => Rule.mem_leavesAll.2 ⟨m, hm, leaves leaf hl⟩,
      fun all => plain (Rule.arePlain_iff.1 all m hm)⟩
  induction r with
  | terminal | symbol | token =>
    rw [lowered, repeats_getD_symbol] at h
    cases h
  | seq members ih => exact member members ih (Expr.mem_repeats_makeSeq.1 h)
  | choice members ih => exact member members ih (Expr.mem_repeats_makeChoice.1 h)
  | repeated content repetition ih =>
    have deeper : (Rule.repeated content repetition).isPlain = true → content.isPlain = true := by
      cases repetition with
      | zeroOrMore => exact id
      | oneOrMore => exact fun plain => absurd plain Bool.false_ne_true
    rcases List.mem_cons.1 h with rfl | h
    · exact ⟨content, List.mem_cons_self, rfl, fun _ => id, deeper⟩
    · obtain ⟨c, hc, same, leaves, plain⟩ := ih h
      exact ⟨c, List.mem_cons_of_mem _ hc, same, leaves, plain ∘ deeper⟩
  | optional content ih =>
    obtain ⟨c, hc, same, leaves, -⟩ := ih h
    exact ⟨c, hc, same, leaves, fun plain => absurd plain Bool.false_ne_true⟩
  | prec _ _ _ ih | aliased _ _ _ ih | field _ _ ih => exact ih h

end Naming

end Productions
