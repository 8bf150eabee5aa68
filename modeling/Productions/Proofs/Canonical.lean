import Mathlib.Data.List.Basic
import Productions.Grammar.Basic
import Productions.Proofs.Subtrees

/-! Canonical rules. The shape of canonical rules is what canonical form makes, and canonical form
leaves them as they are. Said of the nodes of a rule: eight kinds of nodes are taken apart, and a
rule without any of them is its own canonical form. -/
namespace Productions.Rule

def IsSeq : Rule → Prop
  | seq _ => True
  | _ => False

def IsChoice : Rule → Prop
  | choice _ => True
  | _ => False

def IsToken : Rule → Prop
  | token _ _ => True
  | _ => False

/-- No optional part, no repetition of one or more, and nothing to flatten or to drop. -/
inductive Canonical : Rule → Prop where
  | terminal (t) : Canonical (terminal t)
  | symbol (name) : Canonical (symbol name)
  | seq {members} (each : ∀ r ∈ members, Canonical r) (flat : ∀ r ∈ members, ¬ r.IsSeq)
      (several : members.length ≠ 1) : Canonical (seq members)
  | choice {members} (each : ∀ r ∈ members, Canonical r) (flat : ∀ r ∈ members, ¬ r.IsChoice)
      (distinct : members.Nodup) (several : members.length ≠ 1) : Canonical (choice members)
  | repeated {content} (inner : Canonical content) : Canonical (repeated content .zeroOrMore)
  | token {content immediate} (inner : Canonical content) (flat : ¬ content.IsToken) :
      Canonical (token content immediate)
  | prec {value assoc content} (inner : Canonical content) : Canonical (prec value assoc content)
  | aliased {content value named} (inner : Canonical content) :
      Canonical (aliased content value named)
  | field {name content} (inner : Canonical content) : Canonical (field name content)

theorem Canonical.of_mem_seqParts {r part : Rule} (h : Canonical r) (mem : part ∈ r.seqParts) :
    Canonical part ∧ ¬ part.IsSeq := by
  cases h with
  | seq each flat _ => exact ⟨each part mem, flat part mem⟩
  | _ =>
    rw [List.mem_singleton.1 mem]
    exact ⟨by constructor <;> assumption, nofun⟩

theorem Canonical.of_mem_choiceParts {r part : Rule} (h : Canonical r)
    (mem : part ∈ r.choiceParts) : Canonical part ∧ ¬ part.IsChoice := by
  cases h with
  | choice each flat _ _ => exact ⟨each part mem, flat part mem⟩
  | _ =>
    rw [List.mem_singleton.1 mem]
    exact ⟨by constructor <;> assumption, nofun⟩

theorem canonical_makeSeq {rules : List Rule} (h : ∀ r ∈ rules, Canonical r) :
    Canonical (makeSeq rules) := by
  have parts : ∀ part ∈ rules.flatMap seqParts, Canonical part ∧ ¬ part.IsSeq := by
    intro part mem
    obtain ⟨r, hr, mem⟩ := List.mem_flatMap.1 mem
    exact (h r hr).of_mem_seqParts mem
  unfold makeSeq
  split
  · rename_i r one
    exact (parts r (by simp [one])).1
  · rename_i several
    refine .seq (fun r hr => (parts r hr).1) (fun r hr => (parts r hr).2) fun one => ?_
    obtain ⟨r, one⟩ := List.length_eq_one_iff.1 one
    exact several r one

theorem canonical_makeChoice {rules : List Rule} (h : ∀ r ∈ rules, Canonical r) :
    Canonical (makeChoice rules) := by
  have parts : ∀ part ∈ (OrderedSet.ofList (rules.flatMap choiceParts)).toList,
      Canonical part ∧ ¬ part.IsChoice := by
    intro part mem
    rw [OrderedSet.mem_toList, OrderedSet.mem_ofList] at mem
    obtain ⟨r, hr, mem⟩ := List.mem_flatMap.1 mem
    exact (h r hr).of_mem_choiceParts mem
  unfold makeChoice
  split
  · rename_i r one
    exact (parts r (by simp [one])).1
  · rename_i several
    refine .choice (fun r hr => (parts r hr).1) (fun r hr => (parts r hr).2)
      (OrderedSet.nodup _) fun one => ?_
    obtain ⟨r, one⟩ := List.length_eq_one_iff.1 one
    exact several r one

theorem canonical_makeToken {immediate : Bool} {r : Rule} (h : Canonical r) :
    Canonical (makeToken immediate r) := by
  cases h with
  | token inner flat => exact .token inner flat
  | _ => exact .token (by constructor <;> assumption) nofun

mutual

theorem canonical_canonicalize : (r : Rule) → Canonical r.canonicalize
  | terminal t => .terminal t
  | symbol name => .symbol name
  | seq members => canonical_makeSeq (canonical_canonicalizeAll members)
  | choice members => canonical_makeChoice (canonical_canonicalizeAll members)
  | optional content => canonical_makeChoice fun r hr => by
    simp only [List.mem_cons, List.not_mem_nil, or_false] at hr
    rcases hr with rfl | rfl
    · exact canonical_canonicalize content
    · exact .seq (by simp) (by simp) (by simp)
  | repeated content .zeroOrMore => .repeated (canonical_canonicalize content)
  | repeated content .oneOrMore => canonical_makeSeq fun r hr => by
    simp only [List.mem_cons, List.not_mem_nil, or_false] at hr
    rcases hr with rfl | rfl
    · exact canonical_canonicalize content
    · exact .repeated (canonical_canonicalize content)
  | token content _ => canonical_makeToken (canonical_canonicalize content)
  | prec _ _ content => .prec (canonical_canonicalize content)
  | aliased content _ _ => .aliased (canonical_canonicalize content)
  | field _ content => .field (canonical_canonicalize content)

theorem canonical_canonicalizeAll : (rules : List Rule) → ∀ r ∈ canonicalizeAll rules, Canonical r
  | [], r, hr => absurd hr (by simp [canonicalizeAll])
  | rule :: rules, r, hr => by
    rcases List.mem_cons.1 hr with rfl | hr
    · exact canonical_canonicalize rule
    · exact canonical_canonicalizeAll rules r hr

end

theorem canonicalizeAll_eq_self {rules : List Rule} (h : ∀ r ∈ rules, r.canonicalize = r) :
    canonicalizeAll rules = rules := by
  rw [canonicalizeAll_eq_map]
  exact (List.map_congr_left h).trans (List.map_id _)

theorem makeSeq_eq_seq {rules : List Rule} (flat : ∀ r ∈ rules, ¬ r.IsSeq)
    (several : rules.length ≠ 1) : makeSeq rules = seq rules := by
  have parts : rules.flatMap seqParts = rules := by
    refine (List.flatMap_congr fun r hr => ?_).trans (List.flatMap_singleton' rules)
    cases r with
    | seq => exact absurd trivial (flat _ hr)
    | _ => rfl
  unfold makeSeq
  rw [parts]
  split
  · exact absurd rfl several
  · rfl

theorem makeChoice_eq_choice {rules : List Rule} (flat : ∀ r ∈ rules, ¬ r.IsChoice)
    (distinct : rules.Nodup) (several : rules.length ≠ 1) : makeChoice rules = choice rules := by
  have parts : rules.flatMap choiceParts = rules := by
    refine (List.flatMap_congr fun r hr => ?_).trans (List.flatMap_singleton' rules)
    cases r with
    | choice => exact absurd trivial (flat _ hr)
    | _ => rfl
  unfold makeChoice
  rw [parts, OrderedSet.toList_ofList_of_nodup distinct]
  split
  · exact absurd rfl several
  · rfl

theorem makeToken_eq_token {immediate : Bool} {r : Rule} (flat : ¬ r.IsToken) :
    makeToken immediate r = token r immediate := by
  cases r with
  | token => exact absurd trivial flat
  | _ => rfl

theorem Canonical.canonicalize_eq {r : Rule} (h : Canonical r) : r.canonicalize = r := by
  induction h with
  | terminal | symbol => rfl
  | seq each flat several ih =>
    rw [canonicalize, canonicalizeAll_eq_self ih, makeSeq_eq_seq flat several]
  | choice each flat distinct several ih =>
    rw [canonicalize, canonicalizeAll_eq_self ih, makeChoice_eq_choice flat distinct several]
  | repeated _ ih => rw [canonicalize, ih, makeRepeated]
  | token _ flat ih => rw [canonicalize, ih, makeToken_eq_token flat]
  | prec _ ih | aliased _ ih | field _ ih => rw [canonicalize, ih]

theorem canonicalize_canonicalize (r : Rule) : r.canonicalize.canonicalize = r.canonicalize :=
  (canonical_canonicalize r).canonicalize_eq

/-- The canonical rules are those that are their own canonical form. -/
theorem canonical_iff {r : Rule} : Canonical r ↔ r.isCanonical = true := by
  rw [isCanonical, beq_iff_eq]
  exact ⟨Canonical.canonicalize_eq, fun same => same ▸ canonical_canonicalize r⟩

/-- A node that canonical form does not leave as it is, by itself or by its direct parts. -/
inductive Reducible : Rule → Prop where
  | optional (content) : Reducible (optional content)
  | oneOrMore (content) : Reducible (repeated content .oneOrMore)
  | seqInSeq {members inner} (mem : seq inner ∈ members) : Reducible (seq members)
  | choiceInChoice {members inner} (mem : choice inner ∈ members) : Reducible (choice members)
  | oneMember (r) : Reducible (seq [r])
  | oneAlternative (r) : Reducible (choice [r])
  | equalAlternatives {members} (twice : ¬ members.Nodup) : Reducible (choice members)
  | tokenInToken (content outer inner) : Reducible (token (token content inner) outer)

def Reduced (r : Rule) : Prop := ∀ s, Within s r → ¬ Reducible s

theorem reduced_iff {r : Rule} : Reduced r ↔ ¬ Reducible r ∧ ∀ c ∈ r.children, Reduced c :=
  forall_within_iff

theorem reduced_iff_of_part {r content : Rule} (part : r.children = [content])
    (fixed : ¬ Reducible r) : Reduced r ↔ Reduced content := by
  rw [reduced_iff, part]
  simp [fixed]

theorem not_reducible_seq_iff {members : List Rule} :
    ¬ Reducible (seq members) ↔ (∀ r ∈ members, ¬ r.IsSeq) ∧ members.length ≠ 1 := by
  constructor
  · intro h
    constructor
    · intro r hr isSeq
      cases r with
      | seq inner => exact h (.seqInSeq hr)
      | _ => exact isSeq
    · intro one
      obtain ⟨r, rfl⟩ := List.length_eq_one_iff.1 one
      exact h (.oneMember r)
  · rintro ⟨flat, several⟩ h
    cases h with
    | seqInSeq mem => exact flat _ mem trivial
    | oneMember r => exact several rfl

theorem not_reducible_choice_iff {members : List Rule} :
    ¬ Reducible (choice members)
      ↔ (∀ r ∈ members, ¬ r.IsChoice) ∧ members.Nodup ∧ members.length ≠ 1 := by
  constructor
  · intro h
    refine ⟨?_, ?_, ?_⟩
    · intro r hr isChoice
      cases r with
      | choice inner => exact h (.choiceInChoice hr)
      | _ => exact isChoice
    · by_contra twice
      exact h (.equalAlternatives twice)
    · intro one
      obtain ⟨r, rfl⟩ := List.length_eq_one_iff.1 one
      exact h (.oneAlternative r)
  · rintro ⟨flat, distinct, several⟩ h
    cases h with
    | choiceInChoice mem => exact flat _ mem trivial
    | oneAlternative r => exact several rfl
    | equalAlternatives twice => exact twice distinct

theorem not_reducible_token_iff {content : Rule} {immediate : Bool} :
    ¬ Reducible (token content immediate) ↔ ¬ content.IsToken := by
  constructor
  · intro h isToken
    cases content with
    | token inner flag => exact h (.tokenInToken inner immediate flag)
    | _ => exact isToken
  · intro flat h
    cases h
    exact flat trivial

/-- One case for each kind of node: the node itself is not reducible, and its parts are reduced. -/
theorem reduced_iff_canonical {r : Rule} : Reduced r ↔ Canonical r := by
  induction r with
  | terminal t =>
    have fixed : ¬ Reducible (terminal t) := by rintro ⟨⟩
    exact iff_of_true (reduced_iff.2 ⟨fixed, by simp [children]⟩) (.terminal t)
  | symbol name =>
    have fixed : ¬ Reducible (symbol name) := by rintro ⟨⟩
    exact iff_of_true (reduced_iff.2 ⟨fixed, by simp [children]⟩) (.symbol name)
  | seq members ih =>
    rw [reduced_iff, not_reducible_seq_iff]
    constructor
    · rintro ⟨⟨flat, several⟩, below⟩
      exact .seq (fun r hr => (ih r hr).1 (below r hr)) flat several
    · intro h
      cases h with
      | seq each flat several => exact ⟨⟨flat, several⟩, fun r hr => (ih r hr).2 (each r hr)⟩
  | choice members ih =>
    rw [reduced_iff, not_reducible_choice_iff]
    constructor
    · rintro ⟨⟨flat, distinct, several⟩, below⟩
      exact .choice (fun r hr => (ih r hr).1 (below r hr)) flat distinct several
    · intro h
      cases h with
      | choice each flat distinct several =>
        exact ⟨⟨flat, distinct, several⟩, fun r hr => (ih r hr).2 (each r hr)⟩
  | optional content ih =>
    constructor
    · intro h
      exact absurd (.optional content) (reduced_iff.1 h).1
    · intro h
      cases h
  | repeated content repetition ih =>
    cases repetition with
    | zeroOrMore =>
      have fixed : ¬ Reducible (repeated content .zeroOrMore) := by rintro ⟨⟩
      rw [reduced_iff_of_part rfl fixed, ih]
      constructor
      · exact .repeated
      · intro h
        cases h with
        | repeated inner => exact inner
    | oneOrMore =>
      constructor
      · intro h
        exact absurd (.oneOrMore content) (reduced_iff.1 h).1
      · intro h
        cases h
  | token content immediate ih =>
    constructor
    · intro h
      have flat := not_reducible_token_iff.1 (reduced_iff.1 h).1
      exact .token (ih.1 ((reduced_iff.1 h).2 content (by simp [children]))) flat
    · intro h
      cases h with
      | token inner flat =>
        exact (reduced_iff_of_part rfl (not_reducible_token_iff.2 flat)).2 (ih.2 inner)
  | prec value assoc content ih =>
    have fixed : ¬ Reducible (prec value assoc content) := by rintro ⟨⟩
    rw [reduced_iff_of_part rfl fixed, ih]
    constructor
    · exact .prec
    · intro h
      cases h with
      | prec inner => exact inner
  | aliased content value named ih =>
    have fixed : ¬ Reducible (aliased content value named) := by rintro ⟨⟩
    rw [reduced_iff_of_part rfl fixed, ih]
    constructor
    · exact .aliased
    · intro h
      cases h with
      | aliased inner => exact inner
  | field name content ih =>
    have fixed : ¬ Reducible (field name content) := by rintro ⟨⟩
    rw [reduced_iff_of_part rfl fixed, ih]
    constructor
    · exact .field
    · intro h
      cases h with
      | field inner => exact inner

/-- Canonical form is exactly the reduced form: it makes every rule reduced, it leaves exactly the
reduced rules as they are, and it is reached in one pass. -/
theorem canonical_form_exact (r : Rule) :
    Reduced r.canonicalize
      ∧ (r.canonicalize = r ↔ Reduced r)
      ∧ (r.isCanonical = true ↔ Reduced r)
      ∧ r.canonicalize.canonicalize = r.canonicalize := by
  have made : Reduced r.canonicalize := reduced_iff_canonical.2 (canonical_canonicalize r)
  have kept : r.canonicalize = r ↔ Reduced r := by
    constructor
    · intro same
      rwa [same] at made
    · intro h
      exact (reduced_iff_canonical.1 h).canonicalize_eq
  refine ⟨made, kept, ?_, canonicalize_canonicalize r⟩
  rw [← canonical_iff, reduced_iff_canonical]

end Productions.Rule
