import Mathlib.Data.List.Forall2
import Mathlib.Tactic.Common
import Productions.Proofs.GrammarFile.Shapes

/-! A record is told by its type and by what is found under the names of its fields. So neither the
order of its members nor other members among them matter. -/
namespace Productions.GrammarFile

open Json (Content DataFault NestsWithin)

section Tagged

variable {τ β : Type} {f : Family τ β} {name : String} {type : τ}
  {others members : List (String × Content)}

theorem splitType_some {found : String × τ} (none : ∀ m ∈ members, m.1 ≠ typeKey) :
    splitType f (some found) others members = .ok (found, others.reverse ++ members) := by
  induction members generalizing others with
  | nil => rw [splitType, List.append_nil]
  | cons m members ih =>
    rw [splitType, if_neg (none m List.mem_cons_self),
      ih fun m hm => none m (List.mem_cons_of_mem _ hm)]
    simp

theorem splitType_none (known : f.ofName name = .ok type)
    (single : (members.filter fun m => m.1 = typeKey) = [(typeKey, .string name)]) :
    splitType f none others members =
      .ok ((name, type), others.reverse ++ members.filter fun m => m.1 ≠ typeKey) := by
  induction members generalizing others with
  | nil => contradiction
  | cons m members ih =>
    by_cases eq : m.1 = typeKey
    · rw [List.filter_cons, if_pos (by simpa using eq)] at single
      obtain ⟨rfl, rest⟩ := List.cons.inj single
      have none : ∀ m ∈ members, m.1 ≠ typeKey := by simpa [List.filter_eq_nil_iff] using rest
      have all : (members.filter fun m => m.1 ≠ typeKey) = members :=
        List.filter_eq_self.2 (by simpa using none)
      rw [splitType, if_pos rfl, if_neg (by simp), typeOf, known, List.filter_cons,
        if_neg (by simp), all]
      exact splitType_some none
    · rw [List.filter_cons, if_neg (by simpa using eq)] at single
      rw [splitType, if_neg eq, ih single, List.filter_cons, if_pos (by simpa using eq)]
      simp

end Tagged

section Fields

variable {inner : Content → Except DataFault Rule} {fields : List (String × Part)}
  {target found : Found} {members : List (String × Content)}

/-- Fields whose values are all to be found in `target` are found as they stand there. -/
theorem foundInMembers_ok
    (reads : ∀ m ∈ members, ∀ part, fields.lookup m.1 = some part →
      ∃ v, fieldOf inner part m.2 = .ok v ∧ target.lookup m.1 = some v)
    (once : ((members.map Prod.fst).filter fun key => (fields.lookup key).isSome).Nodup)
    (fresh : ∀ m ∈ members, (fields.lookup m.1).isSome → found.lookup m.1 = none) :
    ∃ found', foundInMembers inner fields found members = .ok found' ∧
      ∀ key, found'.lookup key =
        if key ∈ members.map Prod.fst ∧ (fields.lookup key).isSome then target.lookup key
        else found.lookup key := by
  induction members generalizing found with
  | nil => exact ⟨found, rfl, by simp⟩
  | cons m members ih =>
    obtain ⟨key, c⟩ := m
    have reads' := fun m hm => reads m (List.mem_cons_of_mem _ hm)
    cases known : fields.lookup key with
    | none =>
      rw [List.map_cons, List.filter_cons, if_neg (by simp [known])] at once
      obtain ⟨found', eq, lookups⟩ :=
        ih reads' once fun m hm => fresh m (List.mem_cons_of_mem _ hm)
      refine ⟨found', by rw [foundInMembers, known]; exact eq, fun other => ?_⟩
      rw [lookups]
      by_cases same : other = key
      · rw [if_neg (by simp [same, known]), if_neg (by simp [same, known])]
      · simp only [List.map_cons, List.mem_cons, same, false_or]
    | some part =>
      obtain ⟨v, read, value⟩ := reads (key, c) List.mem_cons_self part known
      rw [List.map_cons, List.filter_cons, if_pos (by simp [known]), List.nodup_cons] at once
      have free : found.lookup key = none := fresh (key, c) List.mem_cons_self (by simp [known])
      have fresh' : ∀ m ∈ members, (fields.lookup m.1).isSome →
          List.lookup m.1 ((key, v) :: found) = none := by
        intro m hm isKnown
        have ne : m.1 ≠ key := fun same => once.1 (List.mem_filter.2
          ⟨List.mem_map.2 ⟨m, hm, same⟩, by simp [known]⟩)
        rw [List.lookup_cons, beq_eq_false_iff_ne.2 ne]
        exact fresh m (List.mem_cons_of_mem _ hm) isKnown
      obtain ⟨found', eq, lookups⟩ := ih reads' once.2 fresh'
      refine ⟨found', ?_, fun other => ?_⟩
      · rw [foundInMembers, known]
        simp only [free, Option.isSome_none, Bool.false_eq_true, if_false, read]
        exact eq
      · rw [lookups]
        by_cases same : other = key
        · subst same
          rw [List.lookup_cons_self, value, ite_self, if_pos (by simp [known])]
        · rw [List.lookup_cons, beq_eq_false_iff_ne.2 same]
          simp only [List.map_cons, List.mem_cons, same, false_or]

end Fields

theorem RuleType.build_congr {found found' : Found} (same : ∀ key, found.lookup key = found'.lookup key)
    (type : RuleType) : type.build found = type.build found' := by
  cases type <;>
    simp only [RuleType.build, Found.text, Found.truth, Found.rule, Found.rules, Found.precedence,
      Found.flags, Found.get, same]

theorem EntryType.build_congr {found found' : Found}
    (same : ∀ key, found.lookup key = found'.lookup key) (type : EntryType) :
    type.build found = type.build found' := by
  cases type <;> simp only [EntryType.build, Found.text, Found.get, same]

inductive FieldReads (inner : Content → Except DataFault Rule) (fields : List (String × Part)) :
    String × Content → String × Value → Prop where
  | field {key part c v} (known : fields.lookup key = some part)
      (read : fieldOf inner part c = .ok v) : FieldReads inner fields (key, c) (key, v)

namespace FieldReads

variable {inner : Content → Except DataFault Rule} {fields : List (String × Part)}
  {shown : List (String × Content)} {found : Found} {key : String}

theorem lookup_eq_some {c : Content} (h : List.Forall₂ (FieldReads inner fields) shown found)
    (once : (shown.map Prod.fst).Nodup) (mem : (key, c) ∈ shown) :
    ∃ part v, fields.lookup key = some part ∧ fieldOf inner part c = .ok v ∧
      found.lookup key = some v := by
  induction h with
  | nil => exact absurd mem List.not_mem_nil
  | cons head _ ih =>
    obtain ⟨first, distinct⟩ := List.nodup_cons.1 once
    cases head with
    | field known read =>
      rcases List.mem_cons.1 mem with eq | mem
      · cases eq
        exact ⟨_, _, known, read, List.lookup_cons_self⟩
      · obtain ⟨part, v, known', read', value⟩ := ih distinct mem
        refine ⟨part, v, known', read', ?_⟩
        have ne : key ≠ _ := fun same => first (List.mem_map.2 ⟨_, mem, same⟩)
        rwa [List.lookup_cons, beq_eq_false_iff_ne.2 ne]

theorem lookup_eq_none (h : List.Forall₂ (FieldReads inner fields) shown found)
    (out : key ∉ shown.map Prod.fst ∨ fields.lookup key = none) : found.lookup key = none := by
  induction h with
  | nil => rfl
  | cons head _ ih =>
    cases head with
    | @field other part c v known read =>
      have ne : key ≠ other := by
        rintro rfl
        simp [known] at out
      rw [List.lookup_cons, beq_eq_false_iff_ne.2 ne]
      exact ih (out.imp_left fun out mem => out (List.mem_cons_of_mem _ mem))

end FieldReads

theorem foundInMembers_of_perm {inner : Content → Except DataFault Rule}
    {fields : List (String × Part)} {shown unknown members : List (String × Content)}
    {found : Found} (perm : members.Perm (shown ++ unknown)) (distinct : (shown.map Prod.fst).Nodup)
    (unread : ∀ m ∈ unknown, fields.lookup m.1 = none)
    (reads : List.Forall₂ (FieldReads inner fields) shown found) :
    ∃ found', foundInMembers inner fields [] members = .ok found' ∧
      ∀ key, found'.lookup key = found.lookup key := by
  have value : ∀ m ∈ members, ∀ part, fields.lookup m.1 = some part →
      ∃ v, fieldOf inner part m.2 = .ok v ∧ found.lookup m.1 = some v := by
    intro m hm part known
    rcases List.mem_append.1 (perm.mem_iff.1 hm) with hm | hm
    · obtain ⟨part', v, known', read, value⟩ := FieldReads.lookup_eq_some reads distinct hm
      obtain rfl := Option.some.inj (known.symm.trans known')
      exact ⟨v, read, value⟩
    · rw [unread m hm] at known
      contradiction
  have once : ((members.map Prod.fst).filter fun key => (fields.lookup key).isSome).Nodup := by
    have none : ((unknown.map Prod.fst).filter fun key => (fields.lookup key).isSome) = [] := by
      refine List.filter_eq_nil_iff.2 fun key mem => ?_
      obtain ⟨m, hm, rfl⟩ := List.mem_map.1 mem
      simp [unread m hm]
    rw [((perm.map Prod.fst).filter _).nodup_iff, List.map_append, List.filter_append, none,
      List.append_nil]
    exact distinct.filter _
  have fresh : ∀ m ∈ members, (fields.lookup m.1).isSome → List.lookup m.1 ([] : Found) = none :=
    fun _ _ _ => rfl
  obtain ⟨found', eq, lookups⟩ := foundInMembers_ok value once fresh
  refine ⟨found', eq, fun key => ?_⟩
  rw [lookups]
  split
  · rfl
  · rename_i out
    refine (FieldReads.lookup_eq_none reads ?_).symm
    rw [not_and_or, Option.not_isSome_iff_eq_none] at out
    refine out.imp_left fun out mem => out ?_
    obtain ⟨m, hm, rfl⟩ := List.mem_map.1 mem
    exact List.mem_map.2 ⟨m, perm.mem_iff.2 (List.mem_append_left _ hm), rfl⟩

/-- A record with fields for everything its type has to hold, in any order and among others. -/
theorem ofContent_of_isRecord {τ β : Type} {f : Family τ β} {inner : Content → Except DataFault Rule}
    {name : String} {type : τ} {shown : List (String × Content)} {omitted : List String}
    {c : Content} {found : Found} {b : β} (record : IsRecord name shown omitted c)
    (known : f.ofName name = .ok type) (keys : shown.map Prod.fst ++ omitted =
      (f.fields type).map Prod.fst) (once : (typeKey :: (f.fields type).map Prod.fst).Nodup)
    (reads : List.Forall₂ (FieldReads inner (f.fields type)) shown found)
    (congr : ∀ found found' : Found, (∀ key, found.lookup key = found'.lookup key) →
      f.build found type = f.build found' type)
    (build : f.build found type = .ok b) : ofContent f inner c = .ok b := by
  cases record with
  | @object members unknown perm others =>
    rw [← keys] at once
    obtain ⟨untyped, distinct⟩ := List.nodup_cons.1 once
    have notType : ∀ m ∈ shown ++ unknown, m.1 ≠ typeKey := by
      intro m hm eq
      rcases List.mem_append.1 hm with hm | hm
      · exact untyped (List.mem_append_left _ (List.mem_map.2 ⟨m, hm, eq⟩))
      · exact (others m hm).1 eq
    have single : (members.filter fun m => m.1 = typeKey) = [(typeKey, .string name)] := by
      refine List.perm_singleton.1 ((perm.filter _).trans ?_)
      rw [List.filter_cons, if_pos (by simp), List.filter_eq_nil_iff.2 (by simpa using notType)]
    have rest : (members.filter fun m => m.1 ≠ typeKey).Perm (shown ++ unknown) := by
      refine (perm.filter _).trans ?_
      rw [List.filter_cons, if_neg (by simp), List.filter_eq_self.2 (by simpa using notType)]
    have unread : ∀ m ∈ unknown, (f.fields type).lookup m.1 = none := by
      intro m hm
      refine Option.not_isSome_iff_eq_none.1 fun known => ?_
      obtain ⟨-, out, out'⟩ := others m hm
      obtain ⟨field, mem, eq⟩ := List.lookup_isSome_iff.1 known
      have mem' : m.1 ∈ shown.map Prod.fst ++ omitted := by
        rw [keys]
        exact List.mem_map.2 ⟨field, mem, (beq_iff_eq.1 eq).symm⟩
      exact (List.mem_append.1 mem').elim out out'
    obtain ⟨found', eq, same⟩ :=
      foundInMembers_of_perm rest (List.nodup_append.1 distinct).1 unread reads
    rw [ofContent, splitType_none known single]
    change (do f.build (← foundInMembers inner (f.fields type) [] (_ ++ _)) type) = _
    rw [List.reverse_nil, List.nil_append, eq]
    exact (congr found' found same).trans build

theorem nestsWithin_succ {depth : ℕ} {c : Content} (h : NestsWithin depth c) :
    NestsWithin (depth + 1) c := by
  induction depth generalizing c with
  | zero => cases c <;> first | exact trivial | exact absurd h (by simp [NestsWithin])
  | succ depth ih =>
    cases c with
    | null | bool | integer | float | string => trivial
    | array items =>
      simp only [NestsWithin] at h ⊢
      exact fun c hc => ih (h c hc)
    | object members =>
      simp only [NestsWithin] at h ⊢
      exact fun m hm => ih (h m hm)

namespace IsRecord

variable {name : String} {shown : List (String × Content)} {omitted : List String} {c : Content}

theorem not_nestsWithin_zero (h : IsRecord name shown omitted c) : ¬ NestsWithin 0 c := by
  cases h
  simp [NestsWithin]

theorem nests {depth : ℕ} (h : IsRecord name shown omitted c) (nests : NestsWithin (depth + 1) c) :
    ∀ m ∈ shown, NestsWithin depth m.2 := by
  cases h with
  | object perm =>
    simp only [NestsWithin] at nests
    refine fun m hm => nests m (perm.mem_iff.2 ?_)
    exact List.mem_cons_of_mem _ (List.mem_append_left _ hm)

end IsRecord

theorem mapM_of_forall₂ {α β : Type} {ε : Type} {f : α → Except ε β} {as : List α} {bs : List β}
    (h : List.Forall₂ (fun b a => f a = .ok b) bs as) : as.mapM f = .ok bs := by
  induction h with
  | nil => rfl
  | cons head _ ih =>
    rw [List.mapM_cons, head, ih]
    rfl

theorem fitsLevel_iff {n : Int} : fitsLevel n = true ↔ -2 ^ 31 ≤ n ∧ n < 2 ^ 31 := by
  simp [fitsLevel]

namespace FieldReads

variable {inner : Content → Except DataFault Rule} {fields : List (String × Part)} {key : String}

theorem rule {r : Rule} {c : Content} (known : fields.lookup key = some .rule)
    (read : inner c = .ok r) : FieldReads inner fields (key, c) (key, .rule r) :=
  .field known (by rw [fieldOf, read]; rfl)

theorem rules {rs : List Rule} {cs : List Content} (known : fields.lookup key = some .rules)
    (reads : List.Forall₂ (fun r c => inner c = .ok r) rs cs) :
    FieldReads inner fields (key, .array cs) (key, .rules rs) :=
  .field known (by rw [fieldOf, rulesOf, mapM_of_forall₂ reads]; rfl)

theorem precedence {value : Precedence} {c : Content}
    (known : fields.lookup key = some .precedence) (shown : ShowsPrecedence value c) :
    FieldReads inner fields (key, c) (key, .precedence value) := by
  refine .field known ?_
  cases shown with
  | level low high =>
    rw [fieldOf, precedenceOf, if_pos (fitsLevel_iff.2 ⟨low, high⟩)]
    rfl
  | name => rfl

theorem level {n : Int} (known : fields.lookup key = some .level) (low : -2 ^ 31 ≤ n)
    (high : n < 2 ^ 31) :
    FieldReads inner fields (key, .integer n) (key, .precedence (.integer n)) :=
  .field known (by rw [fieldOf, levelOf, if_pos (fitsLevel_iff.2 ⟨low, high⟩)]; rfl)

theorem text {s : String} (known : fields.lookup key = some .text) :
    FieldReads inner fields (key, .string s) (key, .text s) :=
  .field known rfl

end FieldReads

section Shown

variable {name : String} {shown : List (String × Content)} {omitted : List String} {c : Content}
  {found : Found} {inner : Content → Except DataFault Rule}

theorem ruleOfContent (type : RuleType) {r : Rule} (record : IsRecord name shown omitted c)
    (known : ruleFamily.ofName name = .ok type)
    (keys : shown.map Prod.fst ++ omitted = type.fields.map Prod.fst)
    (reads : List.Forall₂ (FieldReads inner type.fields) shown found)
    (build : type.build found = .ok r) : ofContent ruleFamily inner c = .ok r :=
  ofContent_of_isRecord record known keys (by cases type <;> decide) reads
    (fun _ _ same => RuleType.build_congr same type) build

theorem entryOfContent (type : EntryType) {e : OrderingEntry} (record : IsRecord name shown omitted c)
    (known : entryFamily.ofName name = .ok type)
    (keys : shown.map Prod.fst ++ omitted = type.fields.map Prod.fst)
    (reads : List.Forall₂ (FieldReads inner type.fields) shown found)
    (build : type.build found = .ok e) : ofContent entryFamily inner c = .ok e :=
  ofContent_of_isRecord record known keys (by cases type <;> decide) reads
    (fun _ _ same => EntryType.build_congr same type) build

end Shown

theorem ruleOf_of_showsRule {r : Rule} {c : Content} {depth : ℕ} (h : ShowsRule r c)
    (nests : NestsWithin depth c) : ruleOf depth c = .ok r := by
  induction depth generalizing r c with
  | zero =>
    cases h with
    | _ => rename_i record; exact absurd nests record.not_nestsWithin_zero
  | succ depth ih =>
    have members {rs cs} (members : List.Forall₂ ShowsRule rs cs)
        (nests : NestsWithin depth (.array cs)) :
        List.Forall₂ (fun r c => ruleOf depth c = .ok r) rs cs := by
      have each : ∀ c ∈ cs, NestsWithin depth c := by
        cases depth with
        | zero => exact absurd nests (by simp [NestsWithin])
        | succ depth =>
          simp only [NestsWithin] at nests
          exact fun c hc => nestsWithin_succ (nests c hc)
      clear nests
      induction members with
      | nil => exact .nil
      | cons head _ rest =>
        exact .cons (ih head (each _ List.mem_cons_self))
          (rest fun c hc => each c (List.mem_cons_of_mem _ hc))
    rw [ruleOf]
    cases h with
    | blank record => exact ruleOfContent .blank record rfl rfl .nil rfl
    | literal record => exact ruleOfContent .string record rfl rfl (.cons (.text rfl) .nil) rfl
    | pattern optional record =>
      cases optional <;> exact ruleOfContent .pattern record rfl rfl
        (.cons (.text rfl) (.cons (.field rfl rfl) .nil)) rfl
    | plainPattern record =>
      exact ruleOfContent .pattern record rfl rfl (.cons (.text rfl) .nil) rfl
    | symbol record => exact ruleOfContent .symbol record rfl rfl (.cons (.text rfl) .nil) rfl
    | seq shown record =>
      have reads := members shown (record.nests nests _ List.mem_cons_self)
      exact ruleOfContent .seq record rfl rfl (.cons (.rules rfl reads) .nil) rfl
    | choice shown record =>
      have reads := members shown (record.nests nests _ List.mem_cons_self)
      exact ruleOfContent .choice record rfl rfl (.cons (.rules rfl reads) .nil) rfl
    | repeated known content record =>
      have read := ih content (record.nests nests _ List.mem_cons_self)
      simp only [List.mem_cons, List.not_mem_nil, or_false, Prod.mk.injEq] at known
      rcases known with ⟨rfl, rfl⟩ | ⟨rfl, rfl⟩
      · exact ruleOfContent .repeated record rfl rfl (.cons (.rule rfl read) .nil) rfl
      · exact ruleOfContent .repeatedOnce record rfl rfl (.cons (.rule rfl read) .nil) rfl
    | token known content record =>
      have read := ih content (record.nests nests _ List.mem_cons_self)
      simp only [List.mem_cons, List.not_mem_nil, or_false, Prod.mk.injEq] at known
      rcases known with ⟨rfl, rfl⟩ | ⟨rfl, rfl⟩
      · exact ruleOfContent .token record rfl rfl (.cons (.rule rfl read) .nil) rfl
      · exact ruleOfContent .immediateToken record rfl rfl (.cons (.rule rfl read) .nil) rfl
    | field content record =>
      have read := ih content (record.nests nests _ (List.mem_cons_of_mem _ List.mem_cons_self))
      exact ruleOfContent .field record rfl rfl (.cons (.text rfl) (.cons (.rule rfl read) .nil)) rfl
    | aliased content record =>
      have read := ih content (record.nests nests _ List.mem_cons_self)
      exact ruleOfContent .aliased record rfl rfl
        (.cons (.rule rfl read) (.cons (.text rfl) (.cons (.field rfl rfl) .nil))) rfl
    | prec known level content record =>
      have read := ih content (record.nests nests _ (List.mem_cons_of_mem _ List.mem_cons_self))
      have reads {fields : List (String × Part)} (value : fields.lookup "value" = some .precedence)
          (content : fields.lookup "content" = some .rule) :=
        List.Forall₂.cons (FieldReads.precedence value level) (.cons (.rule content read) .nil)
      simp only [List.mem_cons, List.not_mem_nil, or_false, Prod.mk.injEq] at known
      rcases known with ⟨rfl, rfl⟩ | ⟨rfl, rfl⟩ | ⟨rfl, rfl⟩
      · exact ruleOfContent .prec record rfl rfl (reads rfl rfl) rfl
      · exact ruleOfContent .precLeft record rfl rfl (reads rfl rfl) rfl
      · exact ruleOfContent .precRight record rfl rfl (reads rfl rfl) rfl
    | dynamic low high content record =>
      have read := ih content (record.nests nests _ (List.mem_cons_of_mem _ List.mem_cons_self))
      exact ruleOfContent .precDynamic record rfl rfl
        (.cons (.level rfl low high) (.cons (.rule rfl read) .nil)) rfl
    | reserved content record =>
      have read := ih content (record.nests nests _ (List.mem_cons_of_mem _ List.mem_cons_self))
      exact ruleOfContent .reserved record rfl rfl (.cons (.text rfl) (.cons (.rule rfl read) .nil))
        rfl

theorem entryOf_of_showsEntry {e : OrderingEntry} {c : Content}
    (inner : Content → Except DataFault Rule) (h : ShowsEntry e c) :
    ofContent entryFamily inner c = .ok e := by
  cases h with
  | name record => exact entryOfContent .name record rfl rfl (.cons (.text rfl) .nil) rfl
  | symbol record => exact entryOfContent .symbol record rfl rfl (.cons (.text rfl) .nil) rfl

end Productions.GrammarFile
