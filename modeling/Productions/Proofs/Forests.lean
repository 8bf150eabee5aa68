import Productions.Proofs.Derivation.Rules

/-! Annotated forests. A rule derives forests in which every annotation and every token stays as a
labelled bracket around what it covers, whatever terminals and names stand for. A token bracket
around nothing but another one is one bracket, immediate if either is. Forests that differ in no
other way are the same, and a rule and its canonical form derive the same forests. -/
namespace Productions

open scoped Computability

/-- Labelled brackets around forests, over leaves of any kind. -/
inductive ParseTree (α : Type) where
  | leaf (a : α)
  | around (bracket : Bracket) (inner : List (ParseTree α))
  | token (immediate : Bool) (inner : List (ParseTree α))

variable {α : Type}

/-- Forests that come from each other by joining tokens directly inside tokens, anywhere. -/
inductive Alike : List (ParseTree α) → List (ParseTree α) → Prop where
  | refl (f) : Alike f f
  | symm {f g} (h : Alike f g) : Alike g f
  | trans {f g h} (first : Alike f g) (second : Alike g h) : Alike f h
  | append {f f' g g'} (left : Alike f g) (right : Alike f' g') : Alike (f ++ f') (g ++ g')
  | around {b f g} (inner : Alike f g) : Alike [.around b f] [.around b g]
  | token {i f g} (inner : Alike f g) : Alike [.token i f] [.token i g]
  | join (i j f) : Alike [.token i [.token j f]] [.token (i || j) f]

instance Alike.setoid (α : Type) : Setoid (List (ParseTree α)) where
  r := Alike
  iseqv := ⟨.refl, .symm, .trans⟩

structure Interpretation (α : Type) where
  terminal : Terminal → Language (ParseTree α)
  symbol : String → Language (ParseTree α)

namespace Rule

inductive Grows (I : Interpretation α) : Rule → List (ParseTree α) → Prop where
  | terminal {t f} (mem : f ∈ I.terminal t) : Grows I (.terminal t) f
  | symbol {name f} (mem : f ∈ I.symbol name) : Grows I (.symbol name) f
  | seqNil : Grows I (.seq []) []
  | seqCons {r rs f g} (head : Grows I r f) (tail : Grows I (.seq rs) g) :
      Grows I (.seq (r :: rs)) (f ++ g)
  | choice {r rs f} (mem : r ∈ rs) (inner : Grows I r f) : Grows I (.choice rs) f
  | optionalNone {r} : Grows I (.optional r) []
  | optionalSome {r f} (inner : Grows I r f) : Grows I (.optional r) f
  | repeatNil {r} : Grows I (.repeated r .zeroOrMore) []
  | repeatCons {r p f g} (head : Grows I r f) (tail : Grows I (.repeated r .zeroOrMore) g) :
      Grows I (.repeated r p) (f ++ g)
  | token {r i f} (inner : Grows I r f) : Grows I (.token r i) [.token i f]
  | prec {v a r f} (inner : Grows I r f) : Grows I (.prec v a r) [.around (.prec v a) f]
  | aliased {r v n f} (inner : Grows I r f) :
      Grows I (.aliased r v n) [.around (.aliased v n) f]
  | field {n r f} (inner : Grows I r f) : Grows I (.field n r) [.around (.field n) f]

end Rule

/-- The forests that a rule derives, each taken with all that are the same. -/
def Interpretation.forests (I : Interpretation α) (r : Rule) :
    Set (Quotient (Alike.setoid α)) :=
  {c | ∃ f, r.Grows I f ∧ ⟦f⟧ = c}

/-- Strings of trees in which a token stands for every forest that is the same. -/
def Interpretation.reading (I : Interpretation α) : Reading (ParseTree α) where
  terminal := I.terminal
  symbol := I.symbol
  token i L := {f | ∃ g ∈ L, Alike f [.token i g]}
  around b L := {f | ∃ g ∈ L, f = [.around b g]}

theorem Interpretation.reading_joinsTokens (I : Interpretation α) : I.reading.JoinsTokens := by
  intro i j L
  ext f
  constructor
  · rintro ⟨h, ⟨g, hg, inner⟩, outer⟩
    exact ⟨g, hg, .trans outer (.trans (.token inner) (.join i j g))⟩
  · rintro ⟨g, hg, same⟩
    exact ⟨[.token j g], ⟨g, hg, .refl _⟩, .trans same (.symm (.join i j g))⟩

namespace Rule

variable {I : Interpretation α}

theorem Grows.mem_language {r : Rule} {f : List (ParseTree α)} (h : Grows I r f) :
    f ∈ r.language I.reading := by
  induction h with
  | terminal mem | symbol mem => exact mem
  | seqNil => exact Language.nil_mem_one
  | seqCons _ _ ihr ihs => exact Language.append_mem_mul ihr ihs
  | choice mem _ ih => exact mem_unionLanguage.2 ⟨_, mem, ih⟩
  | optionalNone => exact Or.inr rfl
  | optionalSome _ ih => exact Or.inl ih
  | repeatNil => exact Language.nil_mem_kstar _
  | @repeatCons r p f g _ _ ihr ihs =>
    cases p with
    | zeroOrMore => exact append_mem_kstar ihr ihs
    | oneOrMore => exact Language.append_mem_mul ihr ihs
  | token _ ih => exact ⟨_, ih, .refl _⟩
  | prec _ ih | aliased _ ih | field _ ih => exact ⟨_, ih, rfl⟩

theorem exists_grows_flatten {r : Rule} {parts : List (List (ParseTree α))}
    (each : ∀ part ∈ parts, ∃ g, Alike part g ∧ Grows I r g) :
    ∃ g, Alike parts.flatten g ∧ Grows I (.repeated r .zeroOrMore) g := by
  induction parts with
  | nil => exact ⟨[], .refl _, .repeatNil⟩
  | cons part parts ih =>
    obtain ⟨g, same, head⟩ := each part (by simp)
    obtain ⟨g', same', tail⟩ := ih fun part mem => each part (by simp [mem])
    exact ⟨g ++ g', .append same same', .repeatCons head tail⟩

mutual

theorem exists_grows_of_mem : (r : Rule) → {f : List (ParseTree α)} →
    f ∈ r.language I.reading → ∃ g, Alike f g ∧ Grows I r g
  | .terminal _, f, h => ⟨f, .refl f, .terminal h⟩
  | .symbol _, f, h => ⟨f, .refl f, .symbol h⟩
  | .seq rs, _, h => exists_grows_seq_of_mem rs h
  | .choice rs, _, h => by
    obtain ⟨r, mem, g, same, inner⟩ := exists_grows_choice_of_mem rs h
    exact ⟨g, same, .choice mem inner⟩
  | .repeated r .zeroOrMore, _, h => by
    obtain ⟨parts, rfl, each⟩ := h
    exact exists_grows_flatten fun part mem => exists_grows_of_mem r (each part mem)
  | .repeated r .oneOrMore, _, h => by
    obtain ⟨u, hu, _, ⟨parts, rfl, each⟩, rfl⟩ := Language.mem_mul.1 h
    obtain ⟨g, same, head⟩ := exists_grows_of_mem r hu
    obtain ⟨g', same', tail⟩ :=
      exists_grows_flatten fun part mem => exists_grows_of_mem r (each part mem)
    exact ⟨g ++ g', .append same same', .repeatCons head tail⟩
  | .optional r, _, h => by
    rcases h with h | h
    · obtain ⟨g, same, inner⟩ := exists_grows_of_mem r h
      exact ⟨g, same, .optionalSome inner⟩
    · obtain rfl := h
      exact ⟨[], .refl _, .optionalNone⟩
  | .token r i, _, h => by
    obtain ⟨u, hu, outer⟩ := h
    obtain ⟨g, same, inner⟩ := exists_grows_of_mem r hu
    exact ⟨[.token i g], .trans outer (.token same), .token inner⟩
  | .prec v a r, _, h => by
    obtain ⟨u, hu, rfl⟩ := h
    obtain ⟨g, same, inner⟩ := exists_grows_of_mem r hu
    exact ⟨[.around (.prec v a) g], .around same, .prec inner⟩
  | .aliased r v n, _, h => by
    obtain ⟨u, hu, rfl⟩ := h
    obtain ⟨g, same, inner⟩ := exists_grows_of_mem r hu
    exact ⟨[.around (.aliased v n) g], .around same, .aliased inner⟩
  | .field n r, _, h => by
    obtain ⟨u, hu, rfl⟩ := h
    obtain ⟨g, same, inner⟩ := exists_grows_of_mem r hu
    exact ⟨[.around (.field n) g], .around same, .field inner⟩

theorem exists_grows_seq_of_mem : (rs : List Rule) → {f : List (ParseTree α)} →
    f ∈ productLanguage I.reading rs → ∃ g, Alike f g ∧ Grows I (.seq rs) g
  | [], _, h => by
    obtain rfl := (Language.mem_one _).1 h
    exact ⟨[], .refl _, .seqNil⟩
  | r :: rs, _, h => by
    obtain ⟨u, hu, v, hv, rfl⟩ := Language.mem_mul.1 h
    obtain ⟨g, same, head⟩ := exists_grows_of_mem r hu
    obtain ⟨g', same', tail⟩ := exists_grows_seq_of_mem rs hv
    exact ⟨g ++ g', .append same same', .seqCons head tail⟩

theorem exists_grows_choice_of_mem : (rs : List Rule) → {f : List (ParseTree α)} →
    f ∈ unionLanguage I.reading rs → ∃ r ∈ rs, ∃ g, Alike f g ∧ Grows I r g
  | [], _, h => absurd h (Language.notMem_zero _)
  | r :: rs, _, h => by
    rcases h with h | h
    · exact ⟨r, by simp, exists_grows_of_mem r h⟩
    · obtain ⟨s, mem, grows⟩ := exists_grows_choice_of_mem rs h
      exact ⟨s, by simp [mem], grows⟩

end

end Rule

/-- The reading knows the forests of a rule up to those that are the same. -/
theorem Interpretation.mem_forests_iff {I : Interpretation α} {r : Rule}
    {f : List (ParseTree α)} : ⟦f⟧ ∈ I.forests r ↔ ∃ g ∈ r.language I.reading, Alike g f := by
  constructor
  · rintro ⟨g, grows, same⟩
    exact ⟨g, grows.mem_language, Quotient.exact same⟩
  · rintro ⟨g, mem, same⟩
    obtain ⟨h, same', grows⟩ := Rule.exists_grows_of_mem r mem
    exact ⟨h, grows, Quotient.sound (.trans (.symm same') same)⟩

/-- A rule and its canonical form derive the same forests. -/
theorem forests_canonicalize (I : Interpretation α) (r : Rule) :
    I.forests r.canonicalize = I.forests r := by
  ext c
  obtain ⟨f, rfl⟩ := Quotient.exists_rep c
  rw [Interpretation.mem_forests_iff, Interpretation.mem_forests_iff,
    Rule.language_canonicalize I.reading_joinsTokens]

end Productions
