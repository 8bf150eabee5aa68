import Productions.Grammar.Basic
import Productions.Proofs.Derivation.Reading

/-! Derivation of annotated strings from rules. A name stands for the body of its rule, inside a
token rule without brackets, or for an external letter if there is no rule of the name. The strings
that a rule derives are its language under the reading in which each name stands for what it derives
itself, and these are the least languages that contain what the bodies derive. -/
namespace Productions

open scoped Computability

inductive Reference where
  | rule (body : Rule)
  | token (body : Rule)
  | external
  | nothing

namespace Rule

inductive Derives (refs : String → Reference) : Rule → List Letter → Prop where
  | terminal (t) : Derives refs (.terminal t) [.terminal t]
  | rule {name body w} (ref : refs name = .rule body) (inner : Derives refs body w) :
      Derives refs (.symbol name) w
  | tokenRule {name body w} (ref : refs name = .token body) (inner : Derives refs body w) :
      Derives refs (.symbol name) (Letter.bare w)
  | external {name} (ref : refs name = .external) : Derives refs (.symbol name) [.external name]
  | seqNil : Derives refs (.seq []) []
  | seqCons {r rs u w} (head : Derives refs r u) (tail : Derives refs (.seq rs) w) :
      Derives refs (.seq (r :: rs)) (u ++ w)
  | choice {r rs w} (mem : r ∈ rs) (inner : Derives refs r w) : Derives refs (.choice rs) w
  | optionalNone {r} : Derives refs (.optional r) []
  | optionalSome {r w} (inner : Derives refs r w) : Derives refs (.optional r) w
  | repeatNil {r} : Derives refs (.repeated r .zeroOrMore) []
  | repeatCons {r p u w} (head : Derives refs r u)
      (tail : Derives refs (.repeated r .zeroOrMore) w) : Derives refs (.repeated r p) (u ++ w)
  | token {r i w} (inner : Derives refs r w) : Derives refs (.token r i) (Letter.bare w)
  | prec {v a r w} (inner : Derives refs r w) :
      Derives refs (.prec v a r) (Letter.enclose (.prec v a) w)
  | aliased {r v n w} (inner : Derives refs r w) :
      Derives refs (.aliased r v n) (Letter.enclose (.aliased v n) w)
  | field {n r w} (inner : Derives refs r w) :
      Derives refs (.field n r) (Letter.enclose (.field n) w)

end Rule

/-- The reading of annotated strings, given what names stand for. Tokens take brackets away. -/
def annotated (names : String → Language Letter) : Reading Letter where
  terminal t := single (.terminal t)
  symbol := names
  token _ := bared
  around := enclosed

theorem annotated_joinsTokens (names : String → Language Letter) :
    (annotated names).JoinsTokens := by
  intro i j L
  exact bared_bared L

def Reference.language (names : String → Language Letter) (name : String) :
    Reference → Language Letter
  | .rule body => body.language (annotated names)
  | .token body => bared (body.language (annotated names))
  | .external => single (.external name)
  | .nothing => 0

namespace Rule

variable {refs : String → Reference}

def derivedFrom (refs : String → Reference) (name : String) : Language Letter :=
  {w | Derives refs (.symbol name) w}

@[simp] theorem mem_derivedFrom {name : String} {w : List Letter} :
    w ∈ derivedFrom refs name ↔ Derives refs (.symbol name) w := Iff.rfl

theorem append_mem_kstar {α : Type} {L : Language α} {u w : List α} (hu : u ∈ L) (hw : w ∈ L∗) :
    u ++ w ∈ L∗ := by
  obtain ⟨parts, rfl, hparts⟩ := hw
  exact ⟨u :: parts, rfl, by simpa using ⟨hu, hparts⟩⟩

/-- Languages that contain what the bodies of all names derive contain every derivation. -/
theorem Derives.mem_language {names : String → Language Letter}
    (closed : ∀ name, (refs name).language names name ≤ names name) {r : Rule} {w : List Letter}
    (h : Derives refs r w) : w ∈ r.language (annotated names) := by
  induction h with
  | terminal t => rfl
  | rule ref _ ih => exact closed _ (by rw [ref]; exact ih)
  | tokenRule ref _ ih => exact closed _ (by rw [ref]; exact ⟨_, ih, rfl⟩)
  | external ref => exact closed _ (by rw [ref]; rfl)
  | seqNil => exact Language.nil_mem_one
  | seqCons _ _ ihr ihs => exact Language.append_mem_mul ihr ihs
  | choice mem _ ih => exact mem_unionLanguage.2 ⟨_, mem, ih⟩
  | optionalNone => exact Or.inr rfl
  | optionalSome _ ih => exact Or.inl ih
  | repeatNil => exact Language.nil_mem_kstar _
  | @repeatCons r p u w _ _ ihr ihs =>
    cases p with
    | zeroOrMore => exact append_mem_kstar ihr ihs
    | oneOrMore => exact Language.append_mem_mul ihr ihs
  | token _ ih => exact ⟨_, ih, rfl⟩
  | prec _ ih | aliased _ ih | field _ ih => exact ⟨_, ih, rfl⟩

theorem Derives.flatten {r : Rule} {parts : List (List Letter)}
    (h : ∀ u ∈ parts, Derives refs r u) :
    Derives refs (.repeated r .zeroOrMore) parts.flatten := by
  induction parts with
  | nil => exact .repeatNil
  | cons u us ih =>
    exact .repeatCons (h u (by simp)) (ih fun v hv => h v (by simp [hv]))

mutual

theorem derives_of_mem : (r : Rule) → {w : List Letter} →
    w ∈ r.language (annotated (derivedFrom refs)) → Derives refs r w
  | .terminal t, _, h => by
    obtain rfl := mem_single.1 h
    exact .terminal t
  | .symbol _, _, h => h
  | .seq rs, _, h => derives_seq_of_mem rs h
  | .choice rs, _, h => by
    obtain ⟨r, hr, hw⟩ := derives_choice_of_mem rs h
    exact .choice hr hw
  | .repeated r .zeroOrMore, _, h => by
    obtain ⟨parts, rfl, hparts⟩ := h
    exact .flatten fun u hu => derives_of_mem r (hparts u hu)
  | .repeated r .oneOrMore, _, h => by
    obtain ⟨u, hu, _, ⟨parts, rfl, hparts⟩, rfl⟩ := Language.mem_mul.1 h
    exact .repeatCons (derives_of_mem r hu) (.flatten fun v hv => derives_of_mem r (hparts v hv))
  | .optional r, _, h => by
    rcases h with h | h
    · exact .optionalSome (derives_of_mem r h)
    · obtain rfl := h
      exact .optionalNone
  | .token r _, _, h => by
    obtain ⟨u, hu, rfl⟩ := h
    exact .token (derives_of_mem r hu)
  | .prec _ _ r, _, h => by
    obtain ⟨u, hu, rfl⟩ := h
    exact .prec (derives_of_mem r hu)
  | .aliased r _ _, _, h => by
    obtain ⟨u, hu, rfl⟩ := h
    exact .aliased (derives_of_mem r hu)
  | .field _ r, _, h => by
    obtain ⟨u, hu, rfl⟩ := h
    exact .field (derives_of_mem r hu)

theorem derives_seq_of_mem : (rs : List Rule) → {w : List Letter} →
    w ∈ productLanguage (annotated (derivedFrom refs)) rs → Derives refs (.seq rs) w
  | [], _, h => by
    obtain rfl := (Language.mem_one _).1 h
    exact .seqNil
  | r :: rs, _, h => by
    obtain ⟨u, hu, v, hv, rfl⟩ := Language.mem_mul.1 h
    exact .seqCons (derives_of_mem r hu) (derives_seq_of_mem rs hv)

theorem derives_choice_of_mem : (rs : List Rule) → {w : List Letter} →
    w ∈ unionLanguage (annotated (derivedFrom refs)) rs → ∃ r ∈ rs, Derives refs r w
  | [], _, h => absurd h (Language.notMem_zero _)
  | r :: rs, _, h => by
    rcases h with h | h
    · exact ⟨r, by simp, derives_of_mem r h⟩
    · obtain ⟨s, hs, hw⟩ := derives_choice_of_mem rs h
      exact ⟨s, by simp [hs], hw⟩

end

theorem derives_symbol_of_mem {name : String} {w : List Letter}
    (h : w ∈ (refs name).language (derivedFrom refs) name) : Derives refs (.symbol name) w := by
  match ref : refs name with
  | .rule body =>
    rw [ref] at h
    exact .rule ref (derives_of_mem body h)
  | .token body =>
    rw [ref] at h
    obtain ⟨u, hu, rfl⟩ := h
    exact .tokenRule ref (derives_of_mem body hu)
  | .external =>
    rw [ref] at h
    obtain rfl := mem_single.1 h
    exact .external ref
  | .nothing =>
    rw [ref] at h
    exact absurd h (Language.notMem_zero _)

theorem derives_iff_mem {r : Rule} {w : List Letter} :
    Derives refs r w ↔ w ∈ r.language (annotated (derivedFrom refs)) :=
  ⟨fun h => h.mem_language fun _ _ => derives_symbol_of_mem, derives_of_mem r⟩

theorem derivedFrom_eq (name : String) :
    derivedFrom refs name = (refs name).language (derivedFrom refs) name := by
  ext w
  constructor
  · intro h
    cases h with
    | rule ref inner => rw [ref]; exact derives_iff_mem.1 inner
    | tokenRule ref inner => rw [ref]; exact ⟨_, derives_iff_mem.1 inner, rfl⟩
    | external ref => rw [ref]; rfl
  · exact derives_symbol_of_mem

end Rule

namespace Grammar

def isTokenRule (g : Grammar) (d : Definition) : Bool :=
  !(d.hidden || g.inlined.contains d.name) && d.body.isTokenShaped

/-- A name of a grammar stands for the body of its rule, hidden or not, and for an external token
if there is no such rule. -/
def reference (g : Grammar) (name : String) : Reference :=
  match g.get? name with
  | some d => if g.isTokenRule d then .token d.body else .rule d.body
  | none => .external

/-- Derivation from the rules of a grammar as they are written. -/
def Derives (g : Grammar) : Rule → List Letter → Prop := Rule.Derives g.reference

end Grammar

end Productions
