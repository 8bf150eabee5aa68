import Productions.Expr.Basic
import Productions.Proofs.Derivation.Numbered
import Productions.Proofs.Fixpoint
import Productions.Validation.Conflicts

/-! Nullability is derivation of a silent string. A silent string is empty text, whatever its
brackets. An external token comes from a scanner of its own and is never silent. -/
namespace Productions

open scoped Computability

theorem vanishes_zero : ¬ Vanishes 0 := fun ⟨_, h, _⟩ => Language.notMem_zero _ h

theorem vanishes_one : Vanishes 1 := ⟨[], Language.nil_mem_one, rfl⟩

theorem vanishes_add {L M : Language Letter} : Vanishes (L + M) ↔ Vanishes L ∨ Vanishes M := by
  constructor
  · rintro ⟨w, hw | hw, silent⟩
    · exact .inl ⟨w, hw, silent⟩
    · exact .inr ⟨w, hw, silent⟩
  · rintro (⟨w, hw, silent⟩ | ⟨w, hw, silent⟩)
    · exact ⟨w, .inl hw, silent⟩
    · exact ⟨w, .inr hw, silent⟩

theorem vanishes_mul {L M : Language Letter} : Vanishes (L * M) ↔ Vanishes L ∧ Vanishes M := by
  constructor
  · rintro ⟨w, hw, silent⟩
    obtain ⟨u, hu, v, hv, rfl⟩ := Language.mem_mul.1 hw
    rw [Letter.silent_append, Bool.and_eq_true] at silent
    exact ⟨⟨u, hu, silent.1⟩, v, hv, silent.2⟩
  · rintro ⟨⟨u, hu, silent⟩, v, hv, silent'⟩
    exact ⟨u ++ v, Language.append_mem_mul hu hv, by rw [Letter.silent_append, silent, silent']; rfl⟩

theorem vanishes_kstar (L : Language Letter) : Vanishes L∗ := ⟨[], Language.nil_mem_kstar L, rfl⟩

theorem vanishes_enclosed {b : Bracket} {L : Language Letter} :
    Vanishes (enclosed b L) ↔ Vanishes L := by
  constructor
  · rintro ⟨_, ⟨u, hu, rfl⟩, silent⟩
    exact ⟨u, hu, by rwa [Letter.silent_enclose] at silent⟩
  · rintro ⟨u, hu, silent⟩
    exact ⟨_, ⟨u, hu, rfl⟩, by rwa [Letter.silent_enclose]⟩

theorem vanishes_bared {L : Language Letter} : Vanishes (bared L) ↔ Vanishes L := by
  constructor
  · rintro ⟨_, ⟨u, hu, rfl⟩, silent⟩
    exact ⟨u, hu, by rwa [Letter.silent_bare] at silent⟩
  · rintro ⟨u, hu, silent⟩
    exact ⟨_, ⟨u, hu, rfl⟩, by rwa [Letter.silent_bare]⟩

theorem vanishes_single {l : Letter} : Vanishes (single l) ↔ l.isSilent = true := by
  constructor
  · rintro ⟨_, rfl, silent⟩
    simpa [Letter.silent] using silent
  · intro silent
    exact ⟨[l], rfl, by simpa [Letter.silent] using silent⟩

namespace Rule

variable {isNullable : String → Bool} {names : String → Language Letter}

mutual

theorem nullable_iff_vanishes (h : ∀ name, isNullable name = true ↔ Vanishes (names name)) :
    (r : Rule) → (r.nullable isNullable = true ↔ Vanishes (r.language (annotated names)))
  | terminal t => (vanishes_single (l := .terminal t)).symm
  | symbol name => h name
  | seq members => everyNullable_iff_vanishes h members
  | choice members => someNullable_iff_vanishes h members
  | repeated content .zeroOrMore => iff_of_true rfl (vanishes_kstar _)
  | repeated content .oneOrMore => by
    rw [nullable, language, vanishes_mul, nullable_iff_vanishes h content]
    exact (and_iff_left (vanishes_kstar _)).symm
  | optional content => iff_of_true rfl (vanishes_add.2 (.inr vanishes_one))
  | token content _ => (nullable_iff_vanishes h content).trans vanishes_bared.symm
  | prec _ _ content | aliased content _ _ | field _ content =>
    (nullable_iff_vanishes h content).trans vanishes_enclosed.symm

theorem everyNullable_iff_vanishes
    (h : ∀ name, isNullable name = true ↔ Vanishes (names name)) : (rules : List Rule) →
    (everyNullable isNullable rules = true ↔ Vanishes (productLanguage (annotated names) rules))
  | [] => iff_of_true rfl vanishes_one
  | r :: rs => by
    rw [everyNullable, productLanguage, Bool.and_eq_true, vanishes_mul,
      nullable_iff_vanishes h r, everyNullable_iff_vanishes h rs]

theorem someNullable_iff_vanishes
    (h : ∀ name, isNullable name = true ↔ Vanishes (names name)) : (rules : List Rule) →
    (someNullable isNullable rules = true ↔ Vanishes (unionLanguage (annotated names) rules))
  | [] => iff_of_false nofun vanishes_zero
  | r :: rs => by
    rw [someNullable, unionLanguage, Bool.or_eq_true, vanishes_add,
      nullable_iff_vanishes h r, someNullable_iff_vanishes h rs]

end

mutual

theorem nullable_mono {f f' : String → Bool} (h : ∀ k, f k = true → f' k = true) : (r : Rule) →
    r.nullable f = true → r.nullable f' = true
  | terminal _, hr => hr
  | symbol name, hr => h name hr
  | seq members, hr => everyNullable_mono h members hr
  | choice members, hr => someNullable_mono h members hr
  | repeated _ .zeroOrMore, _ | optional _, _ => rfl
  | repeated content .oneOrMore, hr | token content _, hr | prec _ _ content, hr
  | aliased content _ _, hr | field _ content, hr => nullable_mono h content hr

theorem everyNullable_mono {f f' : String → Bool} (h : ∀ k, f k = true → f' k = true) :
    (rules : List Rule) → everyNullable f rules = true → everyNullable f' rules = true
  | [], _ => rfl
  | r :: rs, hr => by
    rw [everyNullable, Bool.and_eq_true] at hr ⊢
    exact ⟨nullable_mono h r hr.1, everyNullable_mono h rs hr.2⟩

theorem someNullable_mono {f f' : String → Bool} (h : ∀ k, f k = true → f' k = true) :
    (rules : List Rule) → someNullable f rules = true → someNullable f' rules = true
  | [], hr => hr
  | r :: rs, hr => by
    rw [someNullable, Bool.or_eq_true] at hr ⊢
    exact hr.imp (nullable_mono h r) (someNullable_mono h rs)

end

variable {refs : String → Reference}

/-- What derives a silent string is nullable, if the nullable names are closed under the bodies. -/
theorem nullable_of_derives
    (closed : ∀ name body, refs name = .rule body ∨ refs name = .token body →
      body.nullable isNullable = true → isNullable name = true)
    {r : Rule} {w : List Letter} (h : Derives refs r w) (silent : Letter.silent w = true) :
    r.nullable isNullable = true := by
  induction h with
  | terminal t =>
    have : (Letter.terminal t).isSilent = true := by simpa [Letter.silent] using silent
    exact this
  | rule ref _ ih => exact closed _ _ (.inl ref) (ih silent)
  | tokenRule ref _ ih =>
    rw [Letter.silent_bare] at silent
    exact closed _ _ (.inr ref) (ih silent)
  | external => simp [Letter.silent, Letter.isSilent] at silent
  | seqNil => rfl
  | seqCons _ _ ihr ihs =>
    rw [Letter.silent_append, Bool.and_eq_true] at silent
    rw [nullable, everyNullable, Bool.and_eq_true]
    exact ⟨ihr silent.1, ihs silent.2⟩
  | @choice r rs _ mem _ ih =>
    rw [nullable, someNullable_eq_any, List.any_eq_true]
    exact ⟨r, mem, ih silent⟩
  | optionalNone | optionalSome | repeatNil => rfl
  | @repeatCons r p u w _ _ ihr _ =>
    rw [Letter.silent_append, Bool.and_eq_true] at silent
    cases p with
    | zeroOrMore => rfl
    | oneOrMore => exact ihr silent.1
  | token _ ih => exact ih (by rwa [Letter.silent_bare] at silent)
  | prec _ ih | aliased _ ih | field _ ih => exact ih (by rwa [Letter.silent_enclose] at silent)

/-- What is nullable derives a silent string, if the nullable names do. -/
theorem derives_silent_of_nullable
    (known : ∀ name, isNullable name = true → Vanishes (derivedFrom refs name)) {r : Rule}
    (h : r.nullable isNullable = true) : ∃ w, Derives refs r w ∧ Letter.silent w = true := by
  classical
  have found : r.nullable (fun name => decide (Vanishes (derivedFrom refs name))) = true :=
    nullable_mono (fun name hn => decide_eq_true (known name hn)) r h
  obtain ⟨w, hw, silent⟩ := (nullable_iff_vanishes (fun _ => decide_eq_true_iff) r).1 found
  exact ⟨w, derives_of_mem r hw, silent⟩

end Rule

theorem nullable_content_iff (content : Rule) :
    (content.nullable fun _ => false) = true ↔ Vanishes (contentLanguage content) := by
  rw [contentLanguage_eq]
  exact Rule.nullable_iff_vanishes
    (fun _ => iff_of_false Bool.false_ne_true vanishes_zero) content

namespace Expr

variable {isNullable : Symbol → Bool} {symbols : Symbol → Language Letter}

mutual

theorem nullable_iff_vanishes (h : ∀ s, isNullable s = true ↔ Vanishes (symbols s)) :
    (e : Expr) → (e.nullable isNullable = true ↔ Vanishes (e.language symbols enclosed))
  | symbol s => h s
  | seq members => everyNullable_iff_vanishes h members
  | choice members => someNullable_iff_vanishes h members
  | repeated _ => iff_of_true rfl (vanishes_kstar _)
  | prec _ _ content | aliased content _ _ | field _ content =>
    (nullable_iff_vanishes h content).trans vanishes_enclosed.symm

theorem everyNullable_iff_vanishes (h : ∀ s, isNullable s = true ↔ Vanishes (symbols s)) :
    (es : List Expr) →
    (everyNullable isNullable es = true ↔ Vanishes (productLanguage symbols enclosed es))
  | [] => iff_of_true rfl vanishes_one
  | e :: es => by
    rw [everyNullable, productLanguage, Bool.and_eq_true, vanishes_mul,
      nullable_iff_vanishes h e, everyNullable_iff_vanishes h es]

theorem someNullable_iff_vanishes (h : ∀ s, isNullable s = true ↔ Vanishes (symbols s)) :
    (es : List Expr) →
    (someNullable isNullable es = true ↔ Vanishes (unionLanguage symbols enclosed es))
  | [] => iff_of_false nofun vanishes_zero
  | e :: es => by
    rw [someNullable, unionLanguage, Bool.or_eq_true, vanishes_add,
      nullable_iff_vanishes h e, someNullable_iff_vanishes h es]

end

mutual

theorem nullable_mono {f g : Symbol → Bool} (h : ∀ s, f s = true → g s = true) :
    (e : Expr) → e.nullable f = true → e.nullable g = true
  | symbol s, hn => h s hn
  | seq members, hn => everyNullable_mono h members hn
  | choice members, hn => someNullable_mono h members hn
  | repeated _, _ => rfl
  | prec _ _ content, hn | aliased content _ _, hn | field _ content, hn =>
    nullable_mono h content hn

theorem everyNullable_mono {f g : Symbol → Bool} (h : ∀ s, f s = true → g s = true) :
    (es : List Expr) → everyNullable f es = true → everyNullable g es = true
  | [], _ => rfl
  | e :: es, hn => by
    rw [everyNullable, Bool.and_eq_true] at hn ⊢
    exact ⟨nullable_mono h e hn.1, everyNullable_mono h es hn.2⟩

theorem someNullable_mono {f g : Symbol → Bool} (h : ∀ s, f s = true → g s = true) :
    (es : List Expr) → someNullable f es = true → someNullable g es = true
  | e :: es, hn => by
    rw [someNullable, Bool.or_eq_true] at hn ⊢
    exact hn.imp (nullable_mono h e) (someNullable_mono h es)

end

end Expr

/-- All external tokens come from the scanner, whatever the text they were declared with. -/
def Numbering.scanned (n : Numbering) : Numbering :=
  { n with externals := n.externals.map fun token => { token with named := true } }

def Expr.DerivesEmpty (n : Numbering) (e : Expr) : Prop :=
  ∃ w, Expr.Derives n.scanned e w ∧ Letter.silent w = true

/-- A silent derivation has no letter of the scanner, so the text of external tokens plays no part. -/
theorem Expr.Derives.of_scanned {n : Numbering} {e : Expr} {w : List Letter}
    (h : Derives n.scanned e w) (silent : Letter.silent w = true) : Derives n e w := by
  induction h with
  | rule lookup _ ih => exact .rule lookup (ih silent)
  | lexical lookup inner => exact .lexical lookup inner
  | external lookup =>
    simp only [Numbering.scanned, List.getElem?_map, Option.map_eq_some_iff] at lookup
    obtain ⟨token, -, rfl⟩ := lookup
    simp [ExternalToken.letter, Letter.silent, Letter.isSilent] at silent
  | seqNil => exact .seqNil
  | seqCons _ _ ihe ihs =>
    rw [Letter.silent_append, Bool.and_eq_true] at silent
    exact .seqCons (ihe silent.1) (ihs silent.2)
  | choice mem _ ih => exact .choice mem (ih silent)
  | repeatNil => exact .repeatNil
  | repeatCons _ _ ihe ihs =>
    rw [Letter.silent_append, Bool.and_eq_true] at silent
    exact .repeatCons (ihe silent.1) (ihs silent.2)
  | prec _ ih => exact .prec (ih (by rwa [Letter.silent_enclose] at silent))
  | aliased _ ih => exact .aliased (ih (by rwa [Letter.silent_enclose] at silent))
  | field _ ih => exact .field (ih (by rwa [Letter.silent_enclose] at silent))

namespace Numbering

variable {n : Numbering} {terminal : Symbol → Bool}

/-- A verdict on terminals: a lexical entry is nullable if its content is, an external token never
is. -/
structure Judges (n : Numbering) (terminal : Symbol → Bool) : Prop where
  lexical : ∀ i, terminal (.lexical i) = true
    ↔ ∃ content, n.contents[i]? = some content ∧ (content.nullable fun _ => false) = true
  external : ∀ i, terminal (.external i) = false

theorem vanishes_lexical (judges : n.Judges terminal) (vars : ℕ → Language Letter) (i : ℕ) :
    terminal (.lexical i) = true ↔ Vanishes (n.scanned.language vars (.lexical i)) := by
  rw [judges.lexical]
  constructor
  · rintro ⟨content, lookup, nullable⟩
    obtain ⟨w, hw, silent⟩ := vanishes_bared.2 ((nullable_content_iff content).1 nullable)
    exact ⟨w, ⟨content, lookup, hw⟩, silent⟩
  · rintro ⟨w, ⟨content, lookup, hw⟩, silent⟩
    exact ⟨content, lookup, (nullable_content_iff content).2 (vanishes_bared.1 ⟨w, hw, silent⟩)⟩

theorem vanishes_external (judges : n.Judges terminal) (vars : ℕ → Language Letter) (i : ℕ) :
    terminal (.external i) = true ↔ Vanishes (n.scanned.language vars (.external i)) := by
  rw [judges.external]
  refine iff_of_false nofun ?_
  rintro ⟨w, ⟨token, lookup, rfl⟩, silent⟩
  simp only [scanned, List.getElem?_map, Option.map_eq_some_iff] at lookup
  obtain ⟨token, -, rfl⟩ := lookup
  simp [ExternalToken.letter, Letter.silent, Letter.isSilent] at silent

def emptyIds (n : Numbering) (terminal : Symbol → Bool) : OrderedSet ℕ :=
  Expr.nullableIds terminal n.bodies

def verdict (n : Numbering) (terminal : Symbol → Bool) : Symbol → Bool :=
  Expr.symbolVerdict terminal (n.emptyIds terminal).contains

theorem mem_bodies_iff {bodies : List Expr} {i : ℕ} {body : Expr} :
    (i, body) ∈ bodies.zipIdx.map Prod.swap ↔ bodies[i]? = some body := by
  simp only [List.mem_map, Prod.exists, Prod.swap_prod_mk, Prod.mk.injEq]
  constructor
  · rintro ⟨e, j, mem, rfl, rfl⟩
    exact List.mem_zipIdx_iff_getElem?.1 mem
  · intro lookup
    exact ⟨body, i, List.mem_zipIdx_iff_getElem?.2 lookup, rfl, rfl⟩

/-- A variable is found if and only if it derives the empty text. -/
theorem mem_emptyIds_iff (judges : n.Judges terminal) (i : ℕ) :
    i ∈ n.emptyIds terminal ↔ Vanishes (Expr.derivedFrom n.scanned (.rule i)) := by
  constructor
  · refine OrderedSet.leastClosed_induction
      (p := fun i => Vanishes (Expr.derivedFrom n.scanned (.rule i))) _
      (fun found old e mem holds => ?_) i
    have lookup : n.scanned.bodies[e.1]? = some e.2 := mem_bodies_iff.1 mem
    classical
    have nullable := Expr.nullable_mono
      (g := fun s => decide (Vanishes (Expr.derivedFrom n.scanned s))) (fun s hs => ?_) e.2 holds
    · obtain ⟨w, hw, silent⟩ :=
        (Expr.nullable_iff_vanishes (fun _ => decide_eq_true_iff) e.2).1 nullable
      exact ⟨w, .rule lookup (Expr.derives_of_mem e.2 hw), silent⟩
    · rw [decide_eq_true_iff, Expr.derivedFrom_eq]
      cases s with
      | rule j => exact old j (OrderedSet.contains_iff.1 hs)
      | lexical j => exact (vanishes_lexical judges _ j).1 hs
      | external j => exact (vanishes_external judges _ j).1 hs
  · rintro ⟨w, derives, silent⟩
    -- Languages in which exactly the variables that were found vanish are closed.
    let vars : ℕ → Language Letter := fun j => {u | Letter.silent u = true →
      j ∈ n.emptyIds terminal}
    have agrees : ∀ s, n.verdict terminal s = true ↔ Vanishes (n.scanned.language vars s) := by
      intro s
      cases s with
      | rule j =>
        refine OrderedSet.contains_iff.trans ⟨fun hj => ⟨[], fun _ => hj, rfl⟩, ?_⟩
        rintro ⟨u, hu, silent⟩
        exact hu silent
      | lexical j => exact vanishes_lexical judges _ j
      | external j => exact vanishes_external judges _ j
    have closed : ∀ j body, n.scanned.bodies[j]? = some body →
        body.language (n.scanned.language vars) enclosed ≤ vars j := by
      intro j body lookup u hu silent
      refine OrderedSet.mem_leastClosed_of_holds (n.bodies.zipIdx.map Prod.swap) (j, body)
        (mem_bodies_iff.2 lookup) ?_
      exact (Expr.nullable_iff_vanishes agrees body).2 ⟨u, hu, silent⟩
    exact Expr.Derives.mem_language closed derives silent

theorem verdict_iff (judges : n.Judges terminal) (s : Symbol) :
    n.verdict terminal s = true ↔ Vanishes (Expr.derivedFrom n.scanned s) := by
  cases s with
  | rule i => exact OrderedSet.contains_iff.trans (mem_emptyIds_iff judges i)
  | lexical i =>
    rw [Expr.derivedFrom_eq]
    exact vanishes_lexical judges _ i
  | external i =>
    rw [Expr.derivedFrom_eq]
    exact vanishes_external judges _ i

theorem nullable_iff_derivesEmpty (judges : n.Judges terminal) (e : Expr) :
    e.nullable (n.verdict terminal) = true ↔ e.DerivesEmpty n := by
  rw [Expr.nullable_iff_vanishes (verdict_iff judges)]
  constructor
  · rintro ⟨w, hw, silent⟩
    exact ⟨w, Expr.derives_iff_mem.2 hw, silent⟩
  · rintro ⟨w, hw, silent⟩
    exact ⟨w, Expr.derives_iff_mem.1 hw, silent⟩

end Numbering

end Productions
