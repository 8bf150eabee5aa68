import Productions.Expr.Basic
import Productions.Precedence.Table
import Productions.Proofs.Derivation.Letters
import Productions.Proofs.Nullability

/-! Sentential forms of an expression: the strings of symbols it comes to by choosing and repeating.
A form can end with a symbol if what follows it derives the empty text, and can begin with one if
what precedes it does. -/
namespace Productions.Expr

open scoped Computability

def forms (e : Expr) : Language Symbol := e.language (fun s => {[s]}) fun _ L => L

def seqForms (es : List Expr) : Language Symbol :=
  productLanguage (fun s => {[s]}) (fun _ L => L) es

def EndsIn (n : Numbering) (e : Expr) (u : Symbol) : Prop :=
  ∃ x y, x ++ u :: y ∈ e.forms ∧ ∀ s ∈ y, (symbol s).DerivesEmpty n

def BeginsWith (n : Numbering) (e : Expr) (u : Symbol) : Prop :=
  ∃ x y, x ++ u :: y ∈ e.forms ∧ ∀ s ∈ x, (symbol s).DerivesEmpty n

theorem mem_forms_choice {es : List Expr} {form : List Symbol} :
    form ∈ (choice es).forms ↔ ∃ e ∈ es, form ∈ e.forms := mem_unionLanguage

theorem mem_seqForms_cons {e : Expr} {es : List Expr} {form : List Symbol} :
    form ∈ seqForms (e :: es) ↔ ∃ a ∈ e.forms, ∃ b ∈ seqForms es, a ++ b = form :=
  Language.mem_mul

variable {isNullable target : Symbol → Bool}

mutual

theorem nullable_of_form : (e : Expr) → {form : List Symbol} → form ∈ e.forms →
    (∀ s ∈ form, isNullable s = true) → e.nullable isNullable = true
  | symbol s, form, h, all => all s (by rw [show form = [s] from h]; simp)
  | seq members, _, h, all => everyNullable_of_form members h all
  | choice members, form, h, all => by
    rw [nullable, someNullable_eq_any, List.any_eq_true]
    obtain ⟨e, he, hform⟩ := mem_forms_choice.1 h
    exact ⟨e, he, nullable_of_form e hform all⟩
  | repeated _, _, _, _ => rfl
  | prec _ _ content, _, h, all | aliased content _ _, _, h, all | field _ content, _, h, all =>
    nullable_of_form content h all

theorem everyNullable_of_form : (es : List Expr) → {form : List Symbol} → form ∈ seqForms es →
    (∀ s ∈ form, isNullable s = true) → everyNullable isNullable es = true
  | [], _, _, _ => rfl
  | e :: es, form, h, all => by
    obtain ⟨a, ha, b, hb, rfl⟩ := mem_seqForms_cons.1 h
    rw [everyNullable, Bool.and_eq_true]
    exact ⟨nullable_of_form e ha fun s hs => all s (by simp [hs]),
      everyNullable_of_form es hb fun s hs => all s (by simp [hs])⟩

end

mutual

theorem mem_symbols_of_form {u : Symbol} : (e : Expr) → {form : List Symbol} →
    form ∈ e.forms → u ∈ form → u ∈ e.symbols
  | symbol s, form, h, hu => by
    rw [show form = [s] from h] at hu
    exact hu
  | seq members, _, h, hu => mem_symbolsAll_of_form members h hu
  | choice members, form, h, hu => by
    rw [symbols, symbolsAll_eq_flatMap, List.mem_flatMap]
    obtain ⟨e, he, hform⟩ := mem_forms_choice.1 h
    exact ⟨e, he, mem_symbols_of_form e hform hu⟩
  | repeated content, form, h, hu => by
    obtain ⟨rounds, rfl, hrounds⟩ := h
    obtain ⟨a, ha, hu⟩ := List.mem_flatten.1 hu
    exact mem_symbols_of_form content (hrounds a ha) hu
  | prec _ _ content, _, h, hu | aliased content _ _, _, h, hu | field _ content, _, h, hu =>
    mem_symbols_of_form content h hu

theorem mem_symbolsAll_of_form {u : Symbol} : (es : List Expr) → {form : List Symbol} →
    form ∈ seqForms es → u ∈ form → u ∈ symbolsAll es
  | [], form, h, hu => by
    rw [(Language.mem_one _).1 h] at hu
    cases hu
  | e :: es, form, h, hu => by
    obtain ⟨a, ha, b, hb, rfl⟩ := mem_seqForms_cons.1 h
    rw [symbolsAll]
    rcases List.mem_append.1 hu with hu | hu
    · exact List.mem_append.2 (.inl (mem_symbols_of_form e ha hu))
    · exact List.mem_append.2 (.inr (mem_symbolsAll_of_form es hb hu))

end

mutual

theorem endsWith_of_form {u : Symbol} (hu : target u = true) : (e : Expr) →
    {x y : List Symbol} → x ++ u :: y ∈ e.forms → (∀ s ∈ y, isNullable s = true) →
    e.endsWith target isNullable = true
  | symbol _, _, _, h, _ => by rwa [endsWith, ← place_in_single h]
  | seq members, _, _, h, after => seqEndsWith_of_form hu members h after
  | choice members, _, _, h, after => someEndsWith_of_form hu members h after
  | repeated content, _, _, h, after => by
    obtain ⟨_, _, hform, -, sub⟩ := place_in_flatten h
    exact endsWith_of_form hu content hform fun s hs => after s (sub s hs)
  | prec _ _ content, _, _, h, after | aliased content _ _, _, _, h, after
  | field _ content, _, _, h, after => endsWith_of_form hu content h after

theorem seqEndsWith_of_form {u : Symbol} (hu : target u = true) : (es : List Expr) →
    {x y : List Symbol} → x ++ u :: y ∈ seqForms es → (∀ s ∈ y, isNullable s = true) →
    seqEndsWith target isNullable es = true
  | [], x, y, h, _ => by simpa using (Language.mem_one _).1 h
  | e :: es, _, _, h, after => by
    obtain ⟨a, ha, b, hb, same⟩ := mem_seqForms_cons.1 h
    rw [seqEndsWith, Bool.or_eq_true, Bool.and_eq_true]
    rcases place_in_append same with ⟨y', rfl, rfl⟩ | ⟨x', rfl, rfl⟩
    · exact .inr ⟨everyNullable_of_form es hb fun s hs => after s (by simp [hs]),
        endsWith_of_form hu e ha fun s hs => after s (by simp [hs])⟩
    · exact .inl (seqEndsWith_of_form hu es hb after)

theorem someEndsWith_of_form {u : Symbol} (hu : target u = true) : (es : List Expr) →
    {x y : List Symbol} → x ++ u :: y ∈ (choice es).forms → (∀ s ∈ y, isNullable s = true) →
    someEndsWith target isNullable es = true
  | [], _, _, h, _ => absurd h (Language.notMem_zero _)
  | e :: es, _, _, h, after => by
    rw [someEndsWith, Bool.or_eq_true]
    rcases h with h | h
    · exact .inl (endsWith_of_form hu e h after)
    · exact .inr (someEndsWith_of_form hu es h after)

end

mutual

theorem startsWith_of_form {u : Symbol} (hu : target u = true) : (e : Expr) →
    {x y : List Symbol} → x ++ u :: y ∈ e.forms → (∀ s ∈ x, isNullable s = true) →
    e.startsWith target isNullable = true
  | symbol _, _, _, h, _ => by rwa [startsWith, ← place_in_single h]
  | seq members, _, _, h, before => seqStartsWith_of_form hu members h before
  | choice members, _, _, h, before => someStartsWith_of_form hu members h before
  | repeated content, _, _, h, before => by
    obtain ⟨_, _, hform, sub, -⟩ := place_in_flatten h
    exact startsWith_of_form hu content hform fun s hs => before s (sub s hs)
  | prec _ _ content, _, _, h, before | aliased content _ _, _, _, h, before
  | field _ content, _, _, h, before => startsWith_of_form hu content h before

theorem seqStartsWith_of_form {u : Symbol} (hu : target u = true) : (es : List Expr) →
    {x y : List Symbol} → x ++ u :: y ∈ seqForms es → (∀ s ∈ x, isNullable s = true) →
    seqStartsWith target isNullable es = true
  | [], x, y, h, _ => by simpa using (Language.mem_one _).1 h
  | e :: es, _, _, h, before => by
    obtain ⟨a, ha, b, hb, same⟩ := mem_seqForms_cons.1 h
    rw [seqStartsWith, Bool.or_eq_true, Bool.and_eq_true]
    rcases place_in_append same with ⟨y', rfl, rfl⟩ | ⟨x', rfl, rfl⟩
    · exact .inl (startsWith_of_form hu e ha before)
    · exact .inr ⟨nullable_of_form e ha fun s hs => before s (by simp [hs]),
        seqStartsWith_of_form hu es hb fun s hs => before s (by simp [hs])⟩

theorem someStartsWith_of_form {u : Symbol} (hu : target u = true) : (es : List Expr) →
    {x y : List Symbol} → x ++ u :: y ∈ (choice es).forms → (∀ s ∈ x, isNullable s = true) →
    someStartsWith target isNullable es = true
  | [], _, _, h, _ => absurd h (Language.notMem_zero _)
  | e :: es, _, _, h, before => by
    rw [someStartsWith, Bool.or_eq_true]
    rcases h with h | h
    · exact .inl (startsWith_of_form hu e h before)
    · exact .inr (someStartsWith_of_form hu es h before)

end

end Productions.Expr
