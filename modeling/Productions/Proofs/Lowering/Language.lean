import Productions.Proofs.Derivation.Rules
import Productions.Proofs.Lowering.Shape

/-! Lowering and languages. Whatever the languages of leaves have to do with those of their symbols,
the language of a rule has to do with that of the lowered rule. -/
namespace Productions

open scoped Computability

variable {α : Type}

/-- A relation of languages that all combinators respect. -/
structure Respected (R : Language α → Language α → Prop)
    (around : Bracket → Language α → Language α) : Prop where
  zero : R 0 0
  one : R 1 1
  add {L L' M M'} : R L L' → R M M' → R (L + M) (L' + M')
  mul {L L' M M'} : R L L' → R M M' → R (L * M) (L' * M')
  kstar {L L'} : R L L' → R L∗ L'∗
  around {L L'} (b) : R L L' → R (around b L) (around b L')

theorem respected_le : Respected (fun L M => L ≤ M) enclosed where
  zero := le_rfl
  one := le_rfl
  add := add_le_add
  mul h h' := mul_le_mul' h h'
  kstar h := kstar_mono h
  around b := enclosed_mono b

theorem respected_ge : Respected (fun L M => M ≤ L) enclosed where
  zero := le_rfl
  one := le_rfl
  add := add_le_add
  mul h h' := mul_le_mul' h h'
  kstar h := kstar_mono h
  around b := enclosed_mono b

theorem respected_eq (around : Bracket → Language α → Language α) :
    Respected (fun L M => L = M) around where
  zero := rfl
  one := rfl
  add := congrArg₂ _
  mul := congrArg₂ _
  kstar := congrArg _
  around _ := congrArg _

namespace Rule

variable {names others : String → Language Letter}

mutual

theorem language_mono (le : ∀ name, names name ≤ others name) : (r : Rule) →
    r.language (annotated names) ≤ r.language (annotated others)
  | terminal _ => le_rfl
  | symbol name => le name
  | seq members => productLanguage_mono le members
  | choice members => unionLanguage_mono le members
  | repeated content .zeroOrMore => kstar_mono (language_mono le content)
  | repeated content .oneOrMore =>
    mul_le_mul' (language_mono le content) (kstar_mono (language_mono le content))
  | optional content => add_le_add (language_mono le content) le_rfl
  | token content _ => bared_mono (language_mono le content)
  | prec _ _ content | aliased content _ _ | field _ content =>
    enclosed_mono _ (language_mono le content)

theorem productLanguage_mono (le : ∀ name, names name ≤ others name) : (rules : List Rule) →
    productLanguage (annotated names) rules ≤ productLanguage (annotated others) rules
  | [] => le_rfl
  | r :: rs => mul_le_mul' (language_mono le r) (productLanguage_mono le rs)

theorem unionLanguage_mono (le : ∀ name, names name ≤ others name) : (rules : List Rule) →
    unionLanguage (annotated names) rules ≤ unionLanguage (annotated others) rules
  | [] => le_rfl
  | r :: rs => add_le_add (language_mono le r) (unionLanguage_mono le rs)

end

mutual

theorem language_congr : (r : Rule) →
    (∀ k ∈ r.occurrences, names k = others k) →
    r.language (annotated names) = r.language (annotated others)
  | terminal _, _ => rfl
  | symbol name, h => h name (by simp [occurrences])
  | seq members, h => productLanguage_congr members h
  | choice members, h => unionLanguage_congr members h
  | repeated content .zeroOrMore, h | repeated content .oneOrMore, h | optional content, h => by
    rw [language, language, language_congr content h]
  | token content _, h | prec _ _ content, h | aliased content _ _, h | field _ content, h => by
    rw [language, language, language_congr content h]
    rfl

theorem productLanguage_congr : (rules : List Rule) →
    (∀ k ∈ occurrencesAll rules, names k = others k) →
    productLanguage (annotated names) rules = productLanguage (annotated others) rules
  | [], _ => rfl
  | r :: rs, h => by
    simp only [occurrencesAll, List.mem_append] at h
    rw [productLanguage, productLanguage, language_congr r fun k hk => h k (.inl hk),
      productLanguage_congr rs fun k hk => h k (.inr hk)]

theorem unionLanguage_congr : (rules : List Rule) →
    (∀ k ∈ occurrencesAll rules, names k = others k) →
    unionLanguage (annotated names) rules = unionLanguage (annotated others) rules
  | [], _ => rfl
  | r :: rs, h => by
    simp only [occurrencesAll, List.mem_append] at h
    rw [unionLanguage, unionLanguage, language_congr r fun k hk => h k (.inl hk),
      unionLanguage_congr rs fun k hk => h k (.inr hk)]

end

end Rule

namespace Lowering

variable {n : Naming} {L : Lexicon} {A : Reading α} {symbols : Symbol → Language α}
  {R : Language α → Language α → Prop}

def Related (n : Naming) (L : Lexicon) (A : Reading α) (symbols : Symbol → Language α)
    (R : Language α → Language α → Prop) (leaf : Rule) : Prop :=
  ∃ symbol, n.symbolIn L leaf = some symbol ∧ R (leaf.language A) (symbols symbol)

theorem Related.symbol {leaf : Rule} (h : Related n L A symbols R leaf) :
    R (leaf.language A) (Expr.language symbols A.around
      (((n.symbolIn L leaf).map Expr.symbol).getD .blank)) := by
  obtain ⟨symbol, found, related⟩ := h
  rw [found]
  exact related

mutual

theorem language_lowered (respected : Respected R A.around) : (r : Rule) → r.isPlain = true →
    (∀ leaf ∈ r.leaves, Related n L A symbols R leaf) →
    R (r.language A) ((n.lowered L r).language symbols A.around)
  | .terminal _, _, h | .symbol _, _, h | .token _ _, _, h => by
    rw [Naming.lowered]
    exact (h _ (by simp [Rule.leaves])).symbol
  | .seq members, plain, h => by
    rw [Naming.lowered, Expr.language_makeSeq]
    exact productLanguage_lowered respected members plain h
  | .choice members, plain, h => by
    rw [Naming.lowered, Expr.language_makeChoice]
    exact unionLanguage_lowered respected members plain h
  | .repeated _ .oneOrMore, plain, _ | .optional _, plain, _ =>
    absurd plain (by simp [Rule.isPlain])
  | .repeated content .zeroOrMore, plain, h =>
    respected.kstar (language_lowered respected content plain h)
  | .prec _ _ content, plain, h | .aliased content _ _, plain, h | .field _ content, plain, h =>
    respected.around _ (language_lowered respected content plain h)

theorem productLanguage_lowered (respected : Respected R A.around) : (rules : List Rule) →
    Rule.arePlain rules = true →
    (∀ leaf ∈ Rule.leavesAll rules, Related n L A symbols R leaf) →
    R (Rule.productLanguage A rules)
      (Expr.productLanguage symbols A.around (n.loweredAll L rules))
  | [], _, _ => respected.one
  | r :: rs, plain, h => by
    simp only [Rule.arePlain, Bool.and_eq_true] at plain
    simp only [Rule.leavesAll, List.mem_append] at h
    exact respected.mul (language_lowered respected r plain.1 fun leaf hl => h leaf (.inl hl))
      (productLanguage_lowered respected rs plain.2 fun leaf hl => h leaf (.inr hl))

theorem unionLanguage_lowered (respected : Respected R A.around) : (rules : List Rule) →
    Rule.arePlain rules = true →
    (∀ leaf ∈ Rule.leavesAll rules, Related n L A symbols R leaf) →
    R (Rule.unionLanguage A rules)
      (Expr.unionLanguage symbols A.around (n.loweredAll L rules))
  | [], _, _ => respected.zero
  | r :: rs, plain, h => by
    simp only [Rule.arePlain, Bool.and_eq_true] at plain
    simp only [Rule.leavesAll, List.mem_append] at h
    exact respected.add (language_lowered respected r plain.1 fun leaf hl => h leaf (.inl hl))
      (unionLanguage_lowered respected rs plain.2 fun leaf hl => h leaf (.inr hl))

end

end Lowering

end Productions
