import Productions.Expr.Basic
import Productions.Grammar.Basic
import Productions.Proofs.Derivation.Letters

/-! The language of a tree under a reading of its leaves and annotations. A sequence is a product, a
choice a union and a repetition a star, so flattening and dropping repeated alternatives change
nothing: a rule and its canonical form have one language under every reading that joins nested
tokens. -/
namespace Productions

open scoped Computability

variable {α : Type}

/-- What terminals, names, tokens and annotations stand for. -/
structure Reading (α : Type) where
  terminal : Terminal → Language α
  symbol : String → Language α
  token : Bool → Language α → Language α
  around : Bracket → Language α → Language α

/-- A token directly inside a token is one token, immediate if either is. -/
def Reading.JoinsTokens (A : Reading α) : Prop :=
  ∀ i j L, A.token i (A.token j L) = A.token (i || j) L

/-- A property that some part of a member has is one that some member has. -/
theorem exists_mem_parts_iff {β : Type} {parts : β → List β} {p : β → Prop} {members : List β}
    (h : ∀ b, p b ↔ ∃ part ∈ parts b, p part) :
    (∃ part ∈ members.flatMap parts, p part) ↔ ∃ b ∈ members, p b := by
  simp only [List.mem_flatMap]
  constructor
  · rintro ⟨part, ⟨b, hb, hpart⟩, hp⟩
    exact ⟨b, hb, (h b).2 ⟨part, hpart, hp⟩⟩
  · rintro ⟨b, hb, hp⟩
    obtain ⟨part, hpart, hp⟩ := (h b).1 hp
    exact ⟨part, ⟨b, hb, hpart⟩, hp⟩

/-- Dropping repeated parts leaves some part with the property. -/
theorem exists_part_iff {β : Type} [DecidableEq β] {parts : β → List β} {p : β → Prop}
    {members : List β} (h : ∀ b, p b ↔ ∃ part ∈ parts b, p part) :
    (∃ part ∈ (OrderedSet.ofList (members.flatMap parts)).toList, p part)
      ↔ ∃ b ∈ members, p b := by
  simp only [OrderedSet.mem_toList, OrderedSet.mem_ofList]
  exact exists_mem_parts_iff h

namespace Rule

mutual

def language (A : Reading α) : Rule → Language α
  | terminal t => A.terminal t
  | symbol name => A.symbol name
  | seq members => productLanguage A members
  | choice members => unionLanguage A members
  | repeated content .zeroOrMore => (language A content)∗
  | repeated content .oneOrMore => language A content * (language A content)∗
  | optional content => language A content + 1
  | token content immediate => A.token immediate (language A content)
  | prec value assoc content => A.around (.prec value assoc) (language A content)
  | aliased content value named => A.around (.aliased value named) (language A content)
  | field name content => A.around (.field name) (language A content)

def productLanguage (A : Reading α) : List Rule → Language α
  | [] => 1
  | rule :: rules => language A rule * productLanguage A rules

def unionLanguage (A : Reading α) : List Rule → Language α
  | [] => 0
  | rule :: rules => language A rule + unionLanguage A rules

end

variable {A : Reading α}

theorem productLanguage_append (rules more : List Rule) :
    productLanguage A (rules ++ more) = productLanguage A rules * productLanguage A more := by
  induction rules with
  | nil => simp [productLanguage]
  | cons r rs ih => simp [productLanguage, ih, mul_assoc]

theorem mem_unionLanguage {rules : List Rule} {w : List α} :
    w ∈ unionLanguage A rules ↔ ∃ r ∈ rules, w ∈ language A r := by
  induction rules with
  | nil => simp [unionLanguage]
  | cons r rs ih =>
    rw [unionLanguage, Language.mem_add, ih]
    simp

theorem productLanguage_seqParts (r : Rule) : productLanguage A r.seqParts = language A r := by
  cases r <;> simp [seqParts, productLanguage, language]

theorem unionLanguage_choiceParts (r : Rule) : unionLanguage A r.choiceParts = language A r := by
  cases r <;> simp [choiceParts, unionLanguage, language]

theorem productLanguage_flatMap_seqParts (rules : List Rule) :
    productLanguage A (rules.flatMap seqParts) = productLanguage A rules := by
  induction rules with
  | nil => rfl
  | cons r rs ih =>
    rw [List.flatMap_cons, productLanguage_append, ih, productLanguage_seqParts, productLanguage]

theorem language_makeSeq (rules : List Rule) :
    language A (makeSeq rules) = productLanguage A rules := by
  rw [← productLanguage_flatMap_seqParts]
  unfold makeSeq
  split
  · rename_i r h
    simp [h, productLanguage]
  · rfl

theorem language_makeChoice (rules : List Rule) :
    language A (makeChoice rules) = unionLanguage A rules := by
  have parts : unionLanguage A (OrderedSet.ofList (rules.flatMap choiceParts)).toList
      = unionLanguage A rules := by
    ext w
    rw [mem_unionLanguage, mem_unionLanguage]
    exact exists_part_iff fun r => by rw [← unionLanguage_choiceParts, mem_unionLanguage]
  rw [← parts]
  unfold makeChoice
  split
  · rename_i r h
    simp [h, unionLanguage]
  · rfl

theorem language_makeToken (hA : A.JoinsTokens) (immediate : Bool) (r : Rule) :
    language A (makeToken immediate r) = A.token immediate (language A r) := by
  cases r <;> simp [makeToken, language, hA _ _ _]

theorem language_makeRepeated (r : Rule) (repetition : Repetition) :
    language A (makeRepeated r repetition) = language A (repeated r repetition) := by
  cases repetition <;> simp [makeRepeated, language, language_makeSeq, productLanguage]

mutual

theorem language_canonicalize (hA : A.JoinsTokens) : (r : Rule) →
    language A r.canonicalize = language A r
  | terminal _ | symbol _ => rfl
  | seq members => by
    rw [canonicalize, language_makeSeq, productLanguage_canonicalizeAll hA members, language]
  | choice members => by
    rw [canonicalize, language_makeChoice, unionLanguage_canonicalizeAll hA members, language]
  | optional content => by
    rw [canonicalize, language_makeChoice, language]
    simp [unionLanguage, language_canonicalize hA content, blank, language, productLanguage]
  | repeated content .zeroOrMore => by
    rw [canonicalize, language_makeRepeated, language, language, language_canonicalize hA content]
  | repeated content .oneOrMore => by
    rw [canonicalize, language_makeRepeated, language, language, language_canonicalize hA content]
  | token content immediate => by
    rw [canonicalize, language_makeToken hA, language, language_canonicalize hA content]
  | prec _ _ content | aliased content _ _ | field _ content => by
    rw [canonicalize, language, language, language_canonicalize hA content]

theorem productLanguage_canonicalizeAll (hA : A.JoinsTokens) : (rules : List Rule) →
    productLanguage A (canonicalizeAll rules) = productLanguage A rules
  | [] => rfl
  | r :: rs => by
    rw [canonicalizeAll, productLanguage, productLanguage, language_canonicalize hA r,
      productLanguage_canonicalizeAll hA rs]

theorem unionLanguage_canonicalizeAll (hA : A.JoinsTokens) : (rules : List Rule) →
    unionLanguage A (canonicalizeAll rules) = unionLanguage A rules
  | [] => rfl
  | r :: rs => by
    rw [canonicalizeAll, unionLanguage, unionLanguage, language_canonicalize hA r,
      unionLanguage_canonicalizeAll hA rs]

end

end Rule

namespace Expr

mutual

def language (symbols : Symbol → Language α) (around : Bracket → Language α → Language α) :
    Expr → Language α
  | symbol s => symbols s
  | seq members => productLanguage symbols around members
  | choice members => unionLanguage symbols around members
  | repeated content => (language symbols around content)∗
  | prec value assoc content => around (.prec value assoc) (language symbols around content)
  | aliased content value named => around (.aliased value named) (language symbols around content)
  | field name content => around (.field name) (language symbols around content)

def productLanguage (symbols : Symbol → Language α) (around : Bracket → Language α → Language α) :
    List Expr → Language α
  | [] => 1
  | e :: es => language symbols around e * productLanguage symbols around es

def unionLanguage (symbols : Symbol → Language α) (around : Bracket → Language α → Language α) :
    List Expr → Language α
  | [] => 0
  | e :: es => language symbols around e + unionLanguage symbols around es

end

variable {symbols : Symbol → Language α} {around : Bracket → Language α → Language α}

theorem productLanguage_append (es fs : List Expr) :
    productLanguage symbols around (es ++ fs)
      = productLanguage symbols around es * productLanguage symbols around fs := by
  induction es with
  | nil => simp [productLanguage]
  | cons e es ih => simp [productLanguage, ih, mul_assoc]

theorem mem_unionLanguage {es : List Expr} {w : List α} :
    w ∈ unionLanguage symbols around es ↔ ∃ e ∈ es, w ∈ language symbols around e := by
  induction es with
  | nil => simp [unionLanguage]
  | cons e es ih =>
    rw [unionLanguage, Language.mem_add, ih]
    simp

theorem productLanguage_flatMap_seqParts (es : List Expr) :
    productLanguage symbols around (es.flatMap seqParts) = productLanguage symbols around es := by
  induction es with
  | nil => rfl
  | cons e es ih =>
    have parts : productLanguage symbols around e.seqParts = language symbols around e := by
      cases e <;> simp [seqParts, productLanguage, language]
    rw [List.flatMap_cons, productLanguage_append, ih, parts, productLanguage]

theorem language_makeSeq (es : List Expr) :
    language symbols around (makeSeq es) = productLanguage symbols around es := by
  rw [← productLanguage_flatMap_seqParts]
  unfold makeSeq
  split
  · rename_i e h
    simp [h, productLanguage]
  · rfl

theorem unionLanguage_choiceParts (e : Expr) :
    unionLanguage symbols around e.choiceParts = language symbols around e := by
  cases e <;> simp [choiceParts, unionLanguage, language]

theorem language_makeChoice (es : List Expr) :
    language symbols around (makeChoice es) = unionLanguage symbols around es := by
  have parts : unionLanguage symbols around (OrderedSet.ofList (es.flatMap choiceParts)).toList
      = unionLanguage symbols around es := by
    ext w
    rw [mem_unionLanguage, mem_unionLanguage]
    exact exists_part_iff fun e => by rw [← unionLanguage_choiceParts, mem_unionLanguage]
  rw [← parts]
  unfold makeChoice
  split
  · rename_i e h
    simp [h, unionLanguage]
  · rfl

end Expr

end Productions
