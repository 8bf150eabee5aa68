import Mathlib.Data.List.Perm.Subperm
import Productions.Normal.Lowering
import Productions.Proofs.Derivation.Numbered

/-! The content of a token. Where no reference is reported, replacing the names in a token keeps its
language up to brackets, which tokens take away. -/
namespace Productions

open scoped Computability

namespace TokenContent

variable {t : SymbolTable} {bodies : OrderedMap String Rule} {owner : String}
  {names others : String → Language Letter} {replace : String → Rule}

/-- Names of one language, up to brackets, as their replacements. -/
def Stands (replace : String → Rule) (others names : String → Language Letter) (k : String) :
    Prop :=
  bared ((replace k).language (annotated others)) = bared (names k)

mutual

theorem bared_language_close : (r : Rule) →
    (∀ k ∈ r.occurrences, Stands replace others names k) →
    bared ((close replace r).language (annotated others)) = bared (r.language (annotated names))
  | .terminal _, _ => rfl
  | .symbol name, h => h name (by simp [Rule.occurrences])
  | .seq members, h => bared_productLanguage_close members h
  | .choice members, h => bared_unionLanguage_close members h
  | .repeated content .zeroOrMore, h => by
    rw [close, Rule.language, Rule.language, bared_kstar, bared_kstar,
      bared_language_close content h]
  | .repeated content .oneOrMore, h => by
    rw [close, Rule.language, Rule.language, bared_mul, bared_mul, bared_kstar, bared_kstar,
      bared_language_close content h]
  | .optional content, h => by
    rw [close, Rule.language, Rule.language, bared_add, bared_add,
      bared_language_close content h]
  | .token content _, h => by
    have ih := bared_language_close content h
    rw [close, Rule.language, ih]
    exact (bared_bared _).symm
  | .prec _ _ content, h => by
    have ih := bared_language_close content h
    rw [close, Rule.language, Rule.language]
    simp only [annotated, bared_enclosed]
    exact ih
  | .aliased content _ _, h | .field _ content, h => by
    have ih := bared_language_close content h
    rw [close, Rule.language, ih]
    exact (bared_enclosed _ _).symm

theorem bared_productLanguage_close : (rules : List Rule) →
    (∀ k ∈ Rule.occurrencesAll rules, Stands replace others names k) →
    bared (Rule.productLanguage (annotated others) (closeAll replace rules))
      = bared (Rule.productLanguage (annotated names) rules)
  | [], _ => rfl
  | r :: rs, h => by
    simp only [Rule.occurrencesAll, List.mem_append] at h
    rw [closeAll, Rule.productLanguage, Rule.productLanguage, bared_mul, bared_mul,
      bared_language_close r fun k hk => h k (.inl hk),
      bared_productLanguage_close rs fun k hk => h k (.inr hk)]

theorem bared_unionLanguage_close : (rules : List Rule) →
    (∀ k ∈ Rule.occurrencesAll rules, Stands replace others names k) →
    bared (Rule.unionLanguage (annotated others) (closeAll replace rules))
      = bared (Rule.unionLanguage (annotated names) rules)
  | [], _ => rfl
  | r :: rs, h => by
    simp only [Rule.occurrencesAll, List.mem_append] at h
    rw [closeAll, Rule.unionLanguage, Rule.unionLanguage, bared_add, bared_add,
      bared_language_close r fun k hk => h k (.inl hk),
      bared_unionLanguage_close rs fun k hk => h k (.inr hk)]

end

/-- Every name that may stand inside a token has a body of its own language. -/
def Faithful (t : SymbolTable) (bodies : OrderedMap String Rule)
    (names : String → Language Letter) : Prop :=
  ∀ name, isLexical t name = true → ∃ body, bodies.get? name = some body
    ∧ bared (names name) = bared (body.language (annotated names))

/-- The replacement of a name has its language. A chain of distinct names is not longer than the
list of bodies, so the fuel lasts. -/
theorem stands_replacement (faithful : Faithful t bodies names) : (fuel : Nat) →
    {chain : List String} → chain.Nodup → (∀ k ∈ chain, k ∈ bodies.keys) →
    bodies.size < fuel + chain.length → {name : String} →
    referenceReports t bodies owner fuel chain name = [] →
    Stands (replacement t bodies fuel chain) others names name
  | 0, chain, nodup, known, enough, name, _ => by
    have short := (List.subperm_of_subset nodup known).length_le
    simp only [OrderedMap.keys, List.length_map] at short
    simp only [OrderedMap.size] at enough
    omega
  | fuel + 1, chain, nodup, known, enough, name, quiet => by
    rw [referenceReports] at quiet
    split at quiet <;> rename_i usable
    · simp only [Bool.and_eq_true, Bool.not_eq_true', List.contains_eq_mem,
        decide_eq_false_iff_not] at usable
      obtain ⟨lexical, apart⟩ := usable
      obtain ⟨body, get, same⟩ := faithful name lexical
      rw [get] at quiet
      have replaced : replacement t bodies (fuel + 1) chain name
          = close (replacement t bodies fuel (chain ++ [name])) body := by
        simp [replacement, usable?, lexical, apart, get]
      rw [Stands, replaced, same]
      refine bared_language_close body fun k hk => ?_
      refine stands_replacement faithful fuel ?_ ?_ ?_ (List.flatMap_eq_nil_iff.1 quiet k hk)
      · exact List.nodup_append.2 ⟨nodup, by simp, by
          rintro k hk _ hj rfl
          exact apart (List.mem_singleton.1 hj ▸ hk)⟩
      · intro k hk
        rcases List.mem_append.1 hk with hk | hk
        · exact known k hk
        · rw [List.mem_singleton.1 hk]
          exact OrderedMap.get?_isSome_iff.1 (by rw [get]; rfl)
      · simp only [List.length_append, List.length_singleton]
        omega
    · cases quiet

/-- A token has the language of its content, if no reference in it is reported. -/
theorem bared_contentLanguage (faithful : Faithful t bodies names) {chain : List String}
    (nodup : chain.Nodup) (known : ∀ k ∈ chain, k ∈ bodies.keys) {rule : Rule}
    (quiet : reports t bodies owner chain rule = []) :
    bared (contentLanguage (TokenContent.of t bodies chain rule).canonicalize)
      = bared (rule.language (annotated names)) := by
  rw [contentLanguage_canonicalize, contentLanguage_eq]
  refine bared_language_close rule fun k hk => ?_
  exact stands_replacement faithful _ nodup known (by omega) (List.flatMap_eq_nil_iff.1 quiet k hk)

theorem bared_language_split : (r : Rule) →
    bared ((split r).1.language (annotated names)) = bared (r.language (annotated names))
  | .token content _ => (bared_bared _).symm
  | .prec value assoc content => by
    have ih := bared_language_split content
    simp only [split, Rule.language, annotated, bared_enclosed]
    exact ih
  | .terminal _ | .symbol _ | .seq _ | .choice _ | .repeated _ _ | .optional _ | .aliased _ _ _
  | .field _ _ => rfl

theorem kind_of_mem_referenceReports {name : String} {d : Diagnostic} : (fuel : Nat) →
    {chain : List String} → d ∈ referenceReports t bodies owner fuel chain name →
    d.kind = .invalidTokenContent
  | 0, _, h => by cases h
  | fuel + 1, _, h => by
    rw [referenceReports] at h
    split at h
    · split at h
      · obtain ⟨_, -, h⟩ := List.mem_flatMap.1 h
        exact kind_of_mem_referenceReports fuel h
      · cases h
    · rw [List.mem_singleton.1 h]
      rfl

theorem kind_of_mem_reports {chain : List String} {rule : Rule} {d : Diagnostic}
    (h : d ∈ reports t bodies owner chain rule) : d.kind = .invalidTokenContent := by
  obtain ⟨_, -, h⟩ := List.mem_flatMap.1 h
  exact kind_of_mem_referenceReports _ h

theorem isError_of_mem_reports {chain : List String} {rule : Rule} {d : Diagnostic}
    (h : d ∈ reports t bodies owner chain rule) : d.isError = true := by
  rw [Diagnostic.isError, Diagnostic.severity, kind_of_mem_reports h]
  rfl

end TokenContent

end Productions
