import Productions.Proofs.Desugaring.Inlining
import Productions.Proofs.Inlining.Acyclic
import Productions.Proofs.Reordering.Tables

/-! Inlining in a grammar whose rules stand in another order. Hidden rules are expanded to the same
rules, whichever comes first, so names stand for the same bodies and the same tokens. -/
namespace Productions

theorem OrderedMap.mem_keys_congr {κ α β : Type} [DecidableEq κ] {m : OrderedMap κ α}
    {n : OrderedMap κ β} (same : ∀ k, (m.get? k).isSome = (n.get? k).isSome) (k : κ) :
    k ∈ m.keys ↔ k ∈ n.keys := by
  rw [← get?_isSome_iff, ← get?_isSome_iff, same]

theorem OrderedMap.size_eq_of_get?_eq {κ α : Type} [DecidableEq κ] {m n : OrderedMap κ α}
    (same : m.get? = n.get?) : m.size = n.size := by
  have perm : m.keys.Perm n.keys := (List.perm_ext_iff_of_nodup m.nodup_keys n.nodup_keys).2
    (mem_keys_congr fun k => by rw [same])
  simpa [keys, size] using perm.length_eq

namespace Inlining

variable {t u : SymbolTable}

theorem hiddenStep_eq (h : t.Reordered u) : HiddenStep t = HiddenStep u := by
  funext a b
  refine propext ?_
  rw [HiddenStep, HiddenStep, h.isInlined_eq]
  obtain ⟨get, get'⟩ | ⟨info, index, get, get'⟩ := h.get?_cases a
  · rw [get, get']
  · simp [get, get']

/-- A hidden rule is expanded to the same rule, whichever hidden rule comes first. -/
theorem Expanded.ruleIn_eq (h : t.Reordered u) {m m' : OrderedMap String Inlined}
    (all : ∀ k, u.isInlined k = true → Expanded u m' k) {name : String} (e : Expanded t m name)
    (hidden : t.isInlined name = true) : ruleIn m name = ruleIn m' name := by
  induction e with
  | @intro name info inlined get entry rule used inner ih =>
    obtain ⟨get', entry', rule', -, -⟩ := all name (h.isInlined_eq ▸ hidden)
    obtain ⟨index, found⟩ := h.get name info get
    obtain rfl := Option.some.inj (get'.symm.trans found)
    rw [Inlining.ruleIn_eq entry, Inlining.ruleIn_eq entry', rule, rule', ← h.isInlined_eq,
      Rule.unfoldNames_congr _ fun k hk hidden => ih k hk hidden hidden]

end Inlining

namespace NormalForm

open Inlining

variable {t u : SymbolTable} {g g' : Grammar} {start : String} (h : t.Reordered u)
  (keyed : t.Keyed) (keyed' : u.Keyed)

section Runs

include h keyed keyed'

theorem quiet_extrasRun_reordered (quiet : (extrasRun g t).2.reports = []) :
    (extrasRun g' u).2.reports = [] :=
  quiet_of_acyclic keyed' fun a cycle => acyclic_of_quiet keyed quiet a (hiddenStep_eq h ▸ cycle)

variable (quiet : (extrasRun g t).2.reports = []) (quiet' : (extrasRun g' u).2.reports = [])

include quiet quiet'

theorem ruleIn_expandedIn_eq {k : String} (hidden : t.isInlined k = true) :
    ruleIn (expandedIn g t) k = ruleIn (expandedIn g' u) k :=
  (expanded_of_isInlined keyed quiet hidden).ruleIn_eq h
    (fun _ hidden => expanded_of_isInlined keyed' quiet' hidden) hidden

/-- Every rule is inlined to the same rule, with the same hidden rules used in it. -/
theorem inlined_reordered {name : String} {info : SymbolInfo} (get : t.get? name = some info) :
    ∃ inlined inlined', (inlinedRules t).get? name = some inlined
      ∧ (inlinedRules u).get? name = some inlined' ∧ inlined.rule = inlined'.rule
      ∧ ∀ k, k ∈ inlined.used ↔ k ∈ inlined'.used := by
  obtain ⟨index, get'⟩ := h.get name info get
  obtain ⟨inlined, entry, by_, -⟩ := exists_inlined keyed quiet get
  obtain ⟨inlined', entry', by', -⟩ := exists_inlined keyed' quiet' get'
  refine ⟨inlined, inlined', entry, entry', ?_, fun k => ?_⟩
  · rw [by_.rule, by'.rule, ← h.isInlined_eq, Rule.unfoldNames_congr _ fun k _ hidden =>
      ruleIn_expandedIn_eq h keyed keyed' quiet quiet' hidden]
  · rw [mem_used_iff keyed quiet get entry, mem_used_iff keyed' quiet' get' entry',
      hiddenStep_eq h]

theorem get?_bodies_reordered : (namingOf g t start).bodies.get?
    = (namingOf g' u start).bodies.get? := by
  funext name
  rw [get?_bodies, get?_bodies]
  obtain ⟨get, get'⟩ | ⟨info, index, get, get'⟩ := h.get?_cases name
  · rw [get?_inlined_eq_none keyed get, get?_inlined_eq_none keyed' get']
  · obtain ⟨inlined, inlined', entry, entry', rule, -⟩ :=
      inlined_reordered h keyed keyed' quiet quiet' get
    rw [entry, entry', Option.map_some, Option.map_some, rule]

theorem extrasRun_reordered (extras : g.extras = g'.extras) :
    (extrasRun g t).1 = (extrasRun g' u).1 := by
  have same {k : String} (hidden : t.isInlined k = true) :
      ruleIn (inlineRun t).2.expanded k = ruleIn (inlineRun u).2.expanded k := by
    have rules := ruleIn_expandedIn_eq h keyed keyed' quiet quiet' hidden
    rwa [expandedIn, expandedIn, extrasRun, extrasRun,
      inlineExtras_of_complete (complete_inlineRun keyed),
      inlineExtras_of_complete (complete_inlineRun keyed')] at rules
  rw [extrasRun, extrasRun, inlineExtras_of_complete (complete_inlineRun keyed),
    inlineExtras_of_complete (complete_inlineRun keyed'), extras, ← h.isInlined_eq]
  exact List.map_congr_left fun r _ => congrArg Rule.canonicalize
    (Rule.unfoldNames_congr r fun k _ hidden => same hidden)

end Runs

theorem mem_keptRules_iff (keyed : t.Keyed) {info : SymbolInfo} : info ∈ keptRules t start
    ↔ t.get? info.name = some info ∧ (info.name = start ∨ isKept info.kind = true) := by
  rw [keptRules, List.mem_append, Option.mem_toList, List.mem_filter]
  constructor
  · rintro (first | ⟨mem, kept⟩)
    · have named := keyed.name_eq first
      exact ⟨named ▸ first, .inl named⟩
    · rw [Bool.and_eq_true] at kept
      exact ⟨keyed.get?_name mem, .inr kept.1⟩
  · rintro ⟨get, kept⟩
    by_cases first : info.name = start
    · exact .inl (first ▸ get)
    · refine .inr ⟨SymbolTable.mem_infos.2 ⟨_, get⟩, ?_⟩
      rw [Bool.and_eq_true]
      exact ⟨kept.resolve_left first, bne_iff_ne.2 first⟩

include h keyed keyed' in
theorem mem_keptRules_reordered {info : SymbolInfo} (mem : info ∈ keptRules t start) :
    ∃ index, { info with index } ∈ keptRules u start := by
  obtain ⟨get, kept⟩ := (mem_keptRules_iff keyed).1 mem
  obtain ⟨index, get'⟩ := h.get _ _ get
  exact ⟨index, (mem_keptRules_iff keyed').2 ⟨get', kept⟩⟩

end NormalForm

structure Naming.Reordered (n n' : Naming) : Prop where
  kinds : n.table.kind? = n'.table.kind?
  bodies : n.bodies.get? = n'.bodies.get?
  externals : n.externals = n'.externals
  vars : ∀ name, (n.vars.get? name).isSome = (n'.vars.get? name).isSome

namespace TokenContent

variable {t u : SymbolTable} {bodies bodies' : OrderedMap String Rule}

theorem replacement_congr (kinds : t.kind? = u.kind?) (same : bodies.get? = bodies'.get?)
    (fuel : Nat) : replacement t bodies fuel = replacement u bodies' fuel := by
  induction fuel with
  | zero => rfl
  | succ fuel ih =>
    funext chain name
    simp only [replacement, usable?, isLexical, kinds, same, ih]
    rfl

theorem referenceReports_congr (kinds : t.kind? = u.kind?) (same : bodies.get? = bodies'.get?)
    (owner : String) (fuel : Nat) :
    referenceReports t bodies owner fuel = referenceReports u bodies' owner fuel := by
  induction fuel with
  | zero => rfl
  | succ fuel ih =>
    funext chain name
    simp only [referenceReports, isLexical, kinds, same, ih]
    rfl

/-- Whether a reference is reported does not depend on the token it is reported for. -/
theorem referenceReports_eq_nil_of_owner (owner owner' : String) (fuel : Nat) :
    ∀ chain name, referenceReports t bodies owner fuel chain name = []
      → referenceReports t bodies owner' fuel chain name = [] := by
  induction fuel with
  | zero => exact fun _ _ _ => rfl
  | succ fuel ih =>
    intro chain name none
    rw [referenceReports] at none ⊢
    split at none <;> rename_i lexical
    · rw [if_pos lexical]
      cases found : bodies.get? name with
      | none => rfl
      | some body =>
        rw [found] at none
        exact List.flatMap_eq_nil_iff.2 fun k hk =>
          ih _ k (List.flatMap_eq_nil_iff.1 none k hk)
    · cases none

end TokenContent

namespace Naming

variable {n n' : Naming}

theorem innerReports_eq_nil_of_owner {owner : String} {content : Rule}
    (none : n.innerReports owner content = []) (owner' : String) :
    n.innerReports owner' content = [] :=
  List.flatMap_eq_nil_iff.2 fun k hk => TokenContent.referenceReports_eq_nil_of_owner _ _ _ _ k
    (List.flatMap_eq_nil_iff.1 none k hk)

theorem Entered.silent {L : Lexicon} (entered : n.Entered L)
    (tokens : ∀ name, n.table.kind? name = some .token → (L.findNamed? name).isSome)
    {leaf : Rule} (placed : n.Placed L leaf) : n.Silent leaf := by
  cases leaf with
  | token content immediate =>
    obtain ⟨-, owner, none⟩ := placed
    exact fun owner' => innerReports_eq_nil_of_owner none owner'
  | symbol name =>
    intro kind
    obtain ⟨id, found⟩ := Option.isSome_iff_exists.1 (tokens name kind)
    obtain ⟨entry, place, named, rfl⟩ := Lexicon.exists_of_findNamed? found
    exact (entered.named entry (List.mem_of_getElem? place) named).2.2.2
  | _ => trivial

namespace Reordered

variable (h : n.Reordered n')

include h

theorem symm : n'.Reordered n :=
  ⟨h.kinds.symm, h.bodies.symm, h.externals.symm, fun name => (h.vars name).symm⟩

theorem bodyOf_eq : n.bodyOf = n'.bodyOf := by
  funext name
  rw [bodyOf, bodyOf, OrderedMap.getD, OrderedMap.getD, h.bodies]

theorem tokenBody_eq : n.tokenBody = n'.tokenBody := by
  funext name
  rw [tokenBody, tokenBody, OrderedMap.getD, OrderedMap.getD, h.bodies]

theorem of_eq : TokenContent.of n.table n.bodies = TokenContent.of n'.table n'.bodies := by
  funext chain rule
  rw [TokenContent.of, TokenContent.of, OrderedMap.size_eq_of_get?_eq h.bodies,
    TokenContent.replacement_congr h.kinds h.bodies]

theorem reports_eq :
    TokenContent.reports n.table n.bodies = TokenContent.reports n'.table n'.bodies := by
  funext owner chain rule
  rw [TokenContent.reports, TokenContent.reports, OrderedMap.size_eq_of_get?_eq h.bodies,
    TokenContent.referenceReports_congr h.kinds h.bodies]

theorem namedContent_eq : n.namedContent = n'.namedContent := by
  funext name
  rw [namedContent, namedContent, h.of_eq, h.tokenBody_eq]

theorem innerContent_eq : n.innerContent = n'.innerContent := by
  funext content
  rw [innerContent, innerContent, h.of_eq]

theorem namedReports_eq : n.namedReports = n'.namedReports := by
  funext name
  rw [namedReports, namedReports, h.reports_eq, h.tokenBody_eq]

theorem innerReports_eq : n.innerReports = n'.innerReports := by
  funext owner content
  rw [innerReports, innerReports, h.reports_eq]

theorem externalId?_eq : n.externalId? = n'.externalId? := by
  funext name named
  rw [externalId?, externalId?, h.externals]

theorem outside?_eq : n.outside? = n'.outside? := by
  funext t
  cases t with
  | literal text => rw [outside?, outside?, h.externalId?_eq]
  | pattern => rfl

theorem silent_eq : n.Silent = n'.Silent := by
  funext leaf
  cases leaf with
  | token | symbol => simp only [Silent, h.innerReports_eq, h.kinds, h.namedReports_eq]
  | _ => rfl

end Reordered

end Naming

end Productions
