import Productions.Proofs.Desugaring.Rules
import Productions.Proofs.Inlining.Acyclic

/-! The inliner against plain substitution. Expansions are kept, and brought to canonical form
before they are put into other rules. What comes out is still the canonical form of the rule as it
was written with each hidden name replaced by the body of its rule, whatever has been inlined
before. -/
namespace Productions

namespace Rule

variable {hidden : String → Bool} {expansions : String → Rule}

theorem canonicalize_unfoldNames_seq (members : List Rule) :
    ((seq members).unfoldNames hidden expansions).canonicalize
      = (seq (members.map (unfoldNames hidden expansions))).canonicalize := by
  rw [unfoldNames, unfoldAll_eq_map, canonicalize_makeSeq]

theorem canonicalize_unfoldNames_choice (members : List Rule) :
    ((choice members).unfoldNames hidden expansions).canonicalize
      = (choice (members.map (unfoldNames hidden expansions))).canonicalize := by
  rw [unfoldNames, unfoldAll_eq_map, canonicalize_makeChoice]

theorem makeSeq_congr {rules rules' : List Rule}
    (same : rules.flatMap seqParts = rules'.flatMap seqParts) : makeSeq rules = makeSeq rules' := by
  rw [makeSeq, makeSeq, same]

theorem makeChoice_congr {rules rules' : List Rule}
    (same : OrderedSet.ofList (rules.flatMap choiceParts)
      = OrderedSet.ofList (rules'.flatMap choiceParts)) : makeChoice rules = makeChoice rules' := by
  rw [makeChoice, makeChoice, same]

variable (hidden expansions)

def unfolded (r : Rule) : Rule := (r.unfoldNames hidden expansions).canonicalize

variable {hidden expansions}

theorem seqParts_unfolded (r : Rule) :
    (r.seqParts.map (unfolded hidden expansions)).flatMap seqParts
      = (unfolded hidden expansions r).seqParts := by
  cases r with
  | seq parts =>
    rw [unfolded, canonicalize_unfoldNames_seq, seqParts_canonicalize_seq, List.map_map]
    rfl
  | _ => exact List.append_nil _

theorem choiceParts_unfolded (r : Rule) :
    OrderedSet.ofList ((r.choiceParts.map (unfolded hidden expansions)).flatMap choiceParts)
      = OrderedSet.ofList (unfolded hidden expansions r).choiceParts := by
  cases r with
  | choice parts =>
    refine OrderedSet.ext ?_
    rw [unfolded, canonicalize_unfoldNames_choice, choiceParts_canonicalize_choice, List.map_map,
      OrderedSet.toList_ofList_of_nodup (OrderedSet.nodup _)]
    rfl
  | _ => exact congrArg OrderedSet.ofList (List.append_nil _)

theorem unfolded_eq_makeSeq (r : Rule) :
    unfolded hidden expansions r = makeSeq (r.seqParts.map (unfolded hidden expansions)) := by
  cases r with
  | seq parts =>
    rw [unfolded, canonicalize_unfoldNames_seq, canonicalize, canonicalizeAll_eq_map, List.map_map]
    rfl
  | _ => exact (canonical_canonicalize _).makeSeq_singleton.symm

theorem unfolded_eq_makeChoice (r : Rule) :
    unfolded hidden expansions r = makeChoice (r.choiceParts.map (unfolded hidden expansions)) := by
  cases r with
  | choice parts =>
    rw [unfolded, canonicalize_unfoldNames_choice, canonicalize, canonicalizeAll_eq_map,
      List.map_map]
    rfl
  | _ => exact (canonical_canonicalize _).makeChoice_singleton.symm

theorem unfolded_canonicalize_seq {members : List Rule}
    (each : ∀ r ∈ members, unfolded hidden expansions r.canonicalize = unfolded hidden expansions r) :
    unfolded hidden expansions (seq members).canonicalize
      = unfolded hidden expansions (seq members) := by
  rw [unfolded_eq_makeSeq, unfolded_eq_makeSeq (seq members)]
  refine makeSeq_congr ?_
  rw [seqParts_canonicalize_seq, List.map_flatMap, List.flatMap_assoc, List.flatMap_map,
    List.flatMap_map]
  refine List.flatMap_congr fun r hr => ?_
  rw [seqParts_unfolded, each r hr]

theorem unfolded_canonicalize_choice {members : List Rule}
    (each : ∀ r ∈ members, unfolded hidden expansions r.canonicalize = unfolded hidden expansions r) :
    unfolded hidden expansions (choice members).canonicalize
      = unfolded hidden expansions (choice members) := by
  rw [unfolded_eq_makeChoice, unfolded_eq_makeChoice (choice members)]
  refine makeChoice_congr ?_
  rw [choiceParts_canonicalize_choice, List.flatMap_map, OrderedSet.ofList_flatMap_ofList,
    List.flatMap_assoc, List.flatMap_map, choiceParts, List.flatMap_map]
  refine OrderedSet.ofList_flatMap_congr fun r hr => ?_
  rw [← each r hr, ← choiceParts_unfolded, List.flatMap_map]

theorem makeToken_makeToken (outer inner : Bool) (r : Rule) :
    makeToken outer (makeToken inner r) = makeToken (outer || inner) r := by
  cases r <;> simp [makeToken, Bool.or_assoc]

theorem unfolded_makeToken (immediate : Bool) (r : Rule) :
    unfolded hidden expansions (makeToken immediate r)
      = makeToken immediate (unfolded hidden expansions r) := by
  cases r with
  | token content inner =>
    rw [unfolded, unfolded, makeToken, unfoldNames, unfoldNames, canonicalize, canonicalize,
      makeToken_makeToken]
  | _ => rfl

/-- A rule can be brought to canonical form before its hidden names are replaced. -/
theorem canonicalize_unfoldNames_canonicalize (r : Rule) :
    (r.canonicalize.unfoldNames hidden expansions).canonicalize
      = (r.unfoldNames hidden expansions).canonicalize := by
  change unfolded hidden expansions r.canonicalize = unfolded hidden expansions r
  induction r with
  | terminal | symbol => rfl
  | seq members each => exact unfolded_canonicalize_seq each
  | choice members each => exact unfolded_canonicalize_choice each
  | optional content inner =>
    have written : unfolded hidden expansions (optional content)
        = unfolded hidden expansions (choice [content, blank]) :=
      (Desugars.optional content).canonicalize_unfoldNames hidden expansions
    rw [(Desugars.optional content).canonicalize_eq, written]
    refine unfolded_canonicalize_choice fun r hr => ?_
    simp only [List.mem_cons, List.not_mem_nil, or_false] at hr
    rcases hr with rfl | rfl
    · exact inner
    · rfl
  | repeated content repetition inner =>
    have zeroOrMore : unfolded hidden expansions (repeated content .zeroOrMore).canonicalize
        = unfolded hidden expansions (repeated content .zeroOrMore) :=
      congrArg (repeated · .zeroOrMore) inner
    cases repetition with
    | zeroOrMore => exact zeroOrMore
    | oneOrMore =>
      have written : unfolded hidden expansions (repeated content .oneOrMore)
          = unfolded hidden expansions (seq [content, repeated content .zeroOrMore]) :=
        (Desugars.repeated content).canonicalize_unfoldNames hidden expansions
      rw [(Desugars.repeated content).canonicalize_eq, written]
      refine unfolded_canonicalize_seq fun r hr => ?_
      simp only [List.mem_cons, List.not_mem_nil, or_false] at hr
      rcases hr with rfl | rfl
      · exact inner
      · exact zeroOrMore
  | token content immediate inner =>
    rw [canonicalize, unfolded_makeToken, inner]
    rfl
  | prec value assoc content inner => exact congrArg (prec value assoc) inner
  | aliased content value named inner => exact congrArg (aliased · value named) inner
  | field name content inner => exact congrArg (field name) inner

end Rule

mutual

/-- Each hidden name is replaced by the body of its rule as it was written, in which hidden names
have been replaced in the same way. Nothing is flattened or dropped. -/
inductive Replaced (t : SymbolTable) : Rule → Rule → Prop where
  | terminal (text) : Replaced t (.terminal text) (.terminal text)
  | visible {name} (shown : t.isInlined name = false) : Replaced t (.symbol name) (.symbol name)
  | hidden {name info plain} (inlined : t.isInlined name = true) (get : t.get? name = some info)
      (body : Replaced t info.body plain) : Replaced t (.symbol name) plain
  | seq {members plains} (each : ReplacedAll t members plains) :
      Replaced t (.seq members) (.seq plains)
  | choice {members plains} (each : ReplacedAll t members plains) :
      Replaced t (.choice members) (.choice plains)
  | repeated {content plain} (repetition) (inner : Replaced t content plain) :
      Replaced t (.repeated content repetition) (.repeated plain repetition)
  | optional {content plain} (inner : Replaced t content plain) :
      Replaced t (.optional content) (.optional plain)
  | token {content plain} (immediate) (inner : Replaced t content plain) :
      Replaced t (.token content immediate) (.token plain immediate)
  | prec {content plain} (value assoc) (inner : Replaced t content plain) :
      Replaced t (.prec value assoc content) (.prec value assoc plain)
  | aliased {content plain} (value named) (inner : Replaced t content plain) :
      Replaced t (.aliased content value named) (.aliased plain value named)
  | field {content plain} (name) (inner : Replaced t content plain) :
      Replaced t (.field name content) (.field name plain)

inductive ReplacedAll (t : SymbolTable) : List Rule → List Rule → Prop where
  | nil : ReplacedAll t [] []
  | cons {rule plain rules plains} (head : Replaced t rule plain)
      (tail : ReplacedAll t rules plains) : ReplacedAll t (rule :: rules) (plain :: plains)

end

variable {t : SymbolTable}

mutual

/-- There is at most one way to replace the hidden names of a rule. -/
theorem Replaced.unique {r p q : Rule} (h : Replaced t r p) (h' : Replaced t r q) : p = q :=
  match h, h' with
  | .terminal _, .terminal _ => rfl
  | .visible _, .visible _ => rfl
  | .visible shown, .hidden inlined _ _ => absurd (shown.symm.trans inlined) Bool.false_ne_true
  | .hidden inlined _ _, .visible shown => absurd (shown.symm.trans inlined) Bool.false_ne_true
  | .hidden _ get body, .hidden _ get' body' => by
    cases get.symm.trans get'
    exact body.unique body'
  | .seq each, .seq each' => congrArg Rule.seq (each.unique each')
  | .choice each, .choice each' => congrArg Rule.choice (each.unique each')
  | .repeated repetition inner, .repeated _ inner' =>
    congrArg (Rule.repeated · repetition) (inner.unique inner')
  | .optional inner, .optional inner' => congrArg Rule.optional (inner.unique inner')
  | .token immediate inner, .token _ inner' =>
    congrArg (Rule.token · immediate) (inner.unique inner')
  | .prec value assoc inner, .prec _ _ inner' =>
    congrArg (Rule.prec value assoc) (inner.unique inner')
  | .aliased value named inner, .aliased _ _ inner' =>
    congrArg (Rule.aliased · value named) (inner.unique inner')
  | .field name inner, .field _ inner' => congrArg (Rule.field name) (inner.unique inner')

theorem ReplacedAll.unique {rs ps qs : List Rule} (h : ReplacedAll t rs ps)
    (h' : ReplacedAll t rs qs) : ps = qs :=
  match h, h' with
  | .nil, .nil => rfl
  | .cons head tail, .cons head' tail' => by rw [head.unique head', tail.unique tail']

end

namespace Rule

mutual

/-- Replacing hidden names by expansions that come from plain substitution gives, up to canonical
form, what plain substitution gives. -/
theorem exists_replaced : (r : Rule) →
    (∀ k ∈ r.occurrences, t.isInlined k = true → ∃ plain, Replaced t (.symbol k) plain
      ∧ (expansions k).canonicalize = plain.canonicalize) →
    ∃ plain, Replaced t r plain
      ∧ (r.unfoldNames t.isInlined expansions).canonicalize = plain.canonicalize
  | terminal text, _ => ⟨_, .terminal text, rfl⟩
  | symbol name, h => by
    by_cases inlined : t.isInlined name = true
    · rw [unfoldNames, if_pos inlined]
      exact h name (by simp [occurrences]) inlined
    · rw [unfoldNames, if_neg inlined]
      exact ⟨_, .visible (by simpa using inlined), rfl⟩
  | seq members, h => by
    obtain ⟨plains, each, same⟩ := exists_replacedAll members h
    refine ⟨_, .seq each, ?_⟩
    rw [unfoldNames, canonicalize_makeSeq, canonicalize, same, canonicalize]
  | choice members, h => by
    obtain ⟨plains, each, same⟩ := exists_replacedAll members h
    refine ⟨_, .choice each, ?_⟩
    rw [unfoldNames, canonicalize_makeChoice, canonicalize, same, canonicalize]
  | repeated content repetition, h => by
    obtain ⟨plain, inner, same⟩ := exists_replaced content h
    exact ⟨_, .repeated repetition inner, by rw [unfoldNames, canonicalize, same, canonicalize]⟩
  | optional content, h => by
    obtain ⟨plain, inner, same⟩ := exists_replaced content h
    exact ⟨_, .optional inner, by rw [unfoldNames, canonicalize, same, canonicalize]⟩
  | token content immediate, h => by
    obtain ⟨plain, inner, same⟩ := exists_replaced content h
    exact ⟨_, .token immediate inner, by rw [unfoldNames, canonicalize, same, canonicalize]⟩
  | prec value assoc content, h => by
    obtain ⟨plain, inner, same⟩ := exists_replaced content h
    exact ⟨_, .prec value assoc inner, by rw [unfoldNames, canonicalize, same, canonicalize]⟩
  | aliased content value named, h => by
    obtain ⟨plain, inner, same⟩ := exists_replaced content h
    exact ⟨_, .aliased value named inner, by rw [unfoldNames, canonicalize, same, canonicalize]⟩
  | field name content, h => by
    obtain ⟨plain, inner, same⟩ := exists_replaced content h
    exact ⟨_, .field name inner, by rw [unfoldNames, canonicalize, same, canonicalize]⟩

theorem exists_replacedAll : (rules : List Rule) →
    (∀ k ∈ occurrencesAll rules, t.isInlined k = true → ∃ plain, Replaced t (.symbol k) plain
      ∧ (expansions k).canonicalize = plain.canonicalize) →
    ∃ plains, ReplacedAll t rules plains
      ∧ canonicalizeAll (unfoldAll t.isInlined expansions rules) = canonicalizeAll plains
  | [], _ => ⟨[], .nil, rfl⟩
  | r :: rs, h => by
    simp only [occurrencesAll, List.mem_append] at h
    obtain ⟨plain, head, same⟩ := exists_replaced r fun k hk => h k (.inl hk)
    obtain ⟨plains, tail, sames⟩ := exists_replacedAll rs fun k hk => h k (.inr hk)
    exact ⟨_, .cons head tail, by rw [unfoldAll, canonicalizeAll, same, sames, canonicalizeAll]⟩

end

end Rule

namespace Inlining

open Relation

/-- The expansion that is kept for a hidden name comes from plain substitution. -/
theorem Expanded.exists_replaced {m : OrderedMap String Inlined} {name : String}
    (h : Expanded t m name) (hidden : t.isInlined name = true) :
    ∃ plain, Replaced t (.symbol name) plain
      ∧ (ruleIn m name).canonicalize = plain.canonicalize := by
  induction h with
  | @intro name info inlined get entry rule used inner ih =>
    obtain ⟨plain, body, same⟩ : ∃ plain, Replaced t info.body plain
        ∧ (info.body.unfoldNames t.isInlined (ruleIn m)).canonicalize = plain.canonicalize :=
      Rule.exists_replaced info.body
        fun k hk hn => ih k ((Rule.mem_occurrences_canonicalize _).2 hk) hn hn
    refine ⟨plain, .hidden hidden get body, ?_⟩
    rw [ruleIn_eq entry, rule, Rule.canonicalize_canonicalize,
      Rule.canonicalize_unfoldNames_canonicalize, same]

structure Faithful (t : SymbolTable) (r : Rule) (inlined : Inlined) : Prop where
  replaced : ∃ plain, Replaced t r plain
  rule : ∀ plain, Replaced t r plain → inlined.rule = plain.canonicalize
  visible : ∀ k ∈ inlined.rule.occurrences, t.isInlined k = false
  used : ∀ k, k ∈ inlined.used
    ↔ ∃ j ∈ r.occurrences, t.isInlined j = true ∧ ReflTransGen (RefersHidden t) j k

/-- A rule may be in canonical form already when it is inlined. -/
theorem InlinedBy.faithful {m : OrderedMap String Inlined} {r r' : Rule} {inlined : Inlined}
    (h : InlinedBy t m r' inlined) (same : r' = r ∨ r' = r.canonicalize)
    (all : ∀ k, Reaches t r' k → k ∈ inlined.used) : Faithful t r inlined := by
  have occurrences (k : String) : k ∈ r'.occurrences ↔ k ∈ r.occurrences := by
    rcases same with rfl | rfl
    · rfl
    · exact Rule.mem_occurrences_canonicalize r
  have unfolded : (r'.unfoldNames t.isInlined (ruleIn m)).canonicalize
      = (r.unfoldNames t.isInlined (ruleIn m)).canonicalize := by
    rcases same with rfl | rfl
    · rfl
    · exact Rule.canonicalize_unfoldNames_canonicalize r
  obtain ⟨plain, replaced, result⟩ : ∃ plain, Replaced t r plain
      ∧ (r.unfoldNames t.isInlined (ruleIn m)).canonicalize = plain.canonicalize :=
    Rule.exists_replaced r fun k hk hidden =>
      (h.inner k ((occurrences k).2 hk) hidden).exists_replaced hidden
  refine ⟨⟨plain, replaced⟩, fun other replaced' => ?_, h.visible, fun k => ?_⟩
  · rw [h.rule, unfolded, result, replaced.unique replaced']
  · rw [← hiddenStep_eq_refersHidden]
    simp only [← occurrences]
    rw [← reaches_iff]
    exact ⟨h.used k, all k⟩

inductive Call where
  | body (name : String)
  | inline (rule : Rule)

namespace Call

def rule (t : SymbolTable) : Call → Rule
  | body name => ((t.get? name).map SymbolInfo.body).getD .blank
  | inline rule => rule

def run (t : SymbolTable) : Call → Inlining → Inlined × Inlining
  | body name => (Inlining.body t name).run
  | inline rule => (Inlining.inline t rule).run

end Call

def afterCalls (t : SymbolTable) (calls : List Call) : Inlining :=
  calls.foldl (fun s call => (call.run t s).2) start

/-- Nothing has been reported, and expansions are right and remember all that they lead to. -/
structure Sound (t : SymbolTable) (s : Inlining) : Prop where
  ready : Ready t [] s
  full : Full t s.expanded
  quiet : s.reports = []

theorem Sound.start (t : SymbolTable) : Sound t start where
  ready := .at_start t
  full _ _ entry := by cases entry
  quiet := rfl

theorem Sound.call (acyclic : Acyclic t) {s : Inlining} (h : Sound t s) (call : Call) :
    Sound t (call.run t s).2 ∧ Faithful t (call.rule t) (call.run t s).1 := by
  cases call with
  | inline r =>
    obtain ⟨later, right⟩ := inline_run (t := t) (r := r) (s := s) rfl
    obtain ⟨reports, full, all⟩ := inline_collects (r := r) (s := s) acyclic rfl h.full
    have quiet := reports.trans h.quiet
    exact ⟨⟨later.ready quiet h.ready, full, quiet⟩, (right quiet h.ready).faithful (.inl rfl) all⟩
  | body name =>
    cases get : t.get? name with
    | none =>
      have shown : ¬ t.isInlined name = true := fun hidden => by
        obtain ⟨info, get', -⟩ := exists_of_isInlined hidden
        exact absurd (get.symm.trans get') (Option.some_ne_none info).symm
      have blank : (Call.body name).run t s = (Inlined.blank, s) := by
        simp only [Call.run, Inlining.body, if_neg shown, get]
        rfl
      have same : (Call.body name).rule t = Rule.blank := by simp [Call.rule, get]
      have inlinedBy : InlinedBy t s.expanded .blank .blank :=
        ⟨rfl, fun _ hk => (by cases hk), fun _ hk => (by cases hk)⟩
      rw [blank, same]
      refine ⟨h, inlinedBy.faithful (.inl rfl) fun k reached => ?_⟩
      obtain ⟨j, mem, -⟩ := reaches_iff.1 reached
      cases mem
    | some info =>
      have same : (Call.body name).rule t = info.body := by simp [Call.rule, get]
      obtain ⟨later, right⟩ := body_run get (s := s) rfl
      obtain ⟨reports, full, all⟩ := body_collects acyclic get (s := s) rfl h.full
      have quiet := reports.trans h.quiet
      rw [same]
      refine ⟨⟨later.ready quiet h.ready, full, quiet⟩, ?_⟩
      exact (right quiet h.ready).1.faithful (.inr rfl)
        fun k reached => all k ((reaches_body_iff get).1 reached)

theorem sound_afterCalls (acyclic : Acyclic t) (calls : List Call) :
    Sound t (afterCalls t calls) := by
  suffices ∀ s, Sound t s → Sound t (calls.foldl (fun s call => (call.run t s).2) s) from
    this _ (.start t)
  induction calls with
  | nil => exact fun _ h => h
  | cons call calls ih => exact fun s h => ih _ (h.call acyclic call).1

/-- Where hidden rules do not refer to each other in a cycle, every call of the inliner is a plain
substitution without any report, whatever calls went before. -/
theorem faithful_of_acyclic (acyclic : ∀ a, ¬ TransGen (RefersHidden t) a a) (calls : List Call)
    (call : Call) :
    Faithful t (call.rule t) (call.run t (afterCalls t calls)).1
      ∧ (call.run t (afterCalls t calls)).2.reports = [] := by
  rw [← hiddenStep_eq_refersHidden] at acyclic
  obtain ⟨sound, faithful⟩ := (sound_afterCalls acyclic calls).call acyclic call
  exact ⟨faithful, sound.quiet⟩

/-- One or two items with marks, where an item may be left out. Marks are hidden, and so are items
with their marks. -/
def separatedPairs : Grammar where
  name := "pairs"
  rules := [
    ⟨"pair", .seq [.symbol "_marked", .optional (.symbol "_marked")], false⟩,
    ⟨"_marked", .choice [.seq [.terminal (.literal "n"), .symbol "_mark"], .symbol "_mark"], true⟩,
    ⟨"_mark", .choice [.terminal (.literal ","), .terminal (.literal ";")], true⟩]
  extras := []
  precedences := []
  conflicts := []
  externals := []
  inlined := []
  supertypes := []
  word := none

def pairsTable : SymbolTable := (Symbols.resolve separatedPairs).1

theorem acyclic_pairsTable (a : String) : ¬ TransGen (RefersHidden pairsTable) a a := by
  rw [← hiddenStep_eq_refersHidden]
  exact NormalForm.acyclic_of_quiet (g := separatedPairs) (Symbols.keyed_resolve _) (by cbv) a

/-- The pair is inlined after a mark and an unknown rule have been asked for. -/
theorem faithful_pairsTable : (∀ a, ¬ TransGen (RefersHidden pairsTable) a a)
    ∧ Faithful pairsTable ((Call.body "pair").rule pairsTable) ((Call.body "pair").run pairsTable
        (afterCalls pairsTable [.inline (.symbol "_mark"), .body "item"])).1
      ∧ ((Call.body "pair").run pairsTable
        (afterCalls pairsTable [.inline (.symbol "_mark"), .body "item"])).2.reports = [] :=
  ⟨acyclic_pairsTable,
    faithful_of_acyclic acyclic_pairsTable [.inline (.symbol "_mark"), .body "item"] (.body "pair")⟩

end Inlining

end Productions
