import Productions.Compiled.Basic
import Productions.Proofs.Derivation.Rules

/-! Derivation of annotated strings from expressions over numbered symbols. A variable stands for
its body, a lexical entry for its content without brackets, and an external token for a letter of
its own or, if it was declared as literal text, for that text. -/
namespace Productions

open scoped Computability

/-- What the numbers of symbols stand for. -/
structure Numbering where
  bodies : List Expr
  contents : List Rule
  externals : List ExternalToken

def NormalForm.numbering (g : NormalForm) : Numbering :=
  ⟨g.bodies, g.lexicon.map LexicalEntry.content, g.externals⟩

def CompiledGrammar.numbering (c : CompiledGrammar) : Numbering :=
  ⟨c.vars.map Variable.body, c.lexicon.map LexicalEntry.content, c.externals⟩

def ExternalToken.letter (token : ExternalToken) : Letter :=
  if token.named then .external token.name else .terminal (.literal token.name)

/-- What the content of a lexical entry derives. It must not refer to any name. -/
def contentLanguage (content : Rule) : Language Letter :=
  {w | content.Derives (fun _ => .nothing) w}

theorem contentLanguage_eq (content : Rule) :
    contentLanguage content = content.language (annotated fun _ => 0) := by
  have nothing : Rule.derivedFrom (fun _ => Reference.nothing) = fun _ => 0 := by
    funext name
    rw [Rule.derivedFrom_eq]
    rfl
  ext w
  rw [← nothing]
  exact Rule.derives_iff_mem

theorem contentLanguage_canonicalize (content : Rule) :
    contentLanguage content.canonicalize = contentLanguage content := by
  rw [contentLanguage_eq, contentLanguage_eq,
    Rule.language_canonicalize (annotated_joinsTokens _)]

namespace Expr

inductive Derives (n : Numbering) : Expr → List Letter → Prop where
  | rule {i body w} (lookup : n.bodies[i]? = some body) (inner : Derives n body w) :
      Derives n (.symbol (.rule i)) w
  | lexical {i content w} (lookup : n.contents[i]? = some content)
      (inner : content.Derives (fun _ => .nothing) w) :
      Derives n (.symbol (.lexical i)) (Letter.bare w)
  | external {i token} (lookup : n.externals[i]? = some token) :
      Derives n (.symbol (.external i)) [token.letter]
  | seqNil : Derives n (.seq []) []
  | seqCons {e es u w} (head : Derives n e u) (tail : Derives n (.seq es) w) :
      Derives n (.seq (e :: es)) (u ++ w)
  | choice {e es w} (mem : e ∈ es) (inner : Derives n e w) : Derives n (.choice es) w
  | repeatNil {e} : Derives n (.repeated e) []
  | repeatCons {e u w} (head : Derives n e u) (tail : Derives n (.repeated e) w) :
      Derives n (.repeated e) (u ++ w)
  | prec {v a e w} (inner : Derives n e w) :
      Derives n (.prec v a e) (Letter.enclose (.prec v a) w)
  | aliased {e v m w} (inner : Derives n e w) :
      Derives n (.aliased e v m) (Letter.enclose (.aliased v m) w)
  | field {m e w} (inner : Derives n e w) :
      Derives n (.field m e) (Letter.enclose (.field m) w)

end Expr

def Numbering.language (n : Numbering) (vars : ℕ → Language Letter) :
    Symbol → Language Letter
  | .rule i => vars i
  | .lexical i => {w | ∃ content, n.contents[i]? = some content ∧ w ∈ bared (contentLanguage content)}
  | .external i => {w | ∃ token, n.externals[i]? = some token ∧ w = [token.letter]}

namespace Expr

variable {n : Numbering}

def derivedFrom (n : Numbering) (s : Symbol) : Language Letter := {w | Derives n (.symbol s) w}

@[simp] theorem mem_derivedFrom {s : Symbol} {w : List Letter} :
    w ∈ derivedFrom n s ↔ Derives n (.symbol s) w := Iff.rfl

/-- Languages of variables that contain what the bodies derive contain every derivation. -/
theorem Derives.mem_language {vars : ℕ → Language Letter}
    (closed : ∀ i body, n.bodies[i]? = some body →
      body.language (n.language vars) enclosed ≤ vars i)
    {e : Expr} {w : List Letter} (h : Derives n e w) :
    w ∈ e.language (n.language vars) enclosed := by
  induction h with
  | rule lookup _ ih => exact closed _ _ lookup ih
  | lexical lookup inner => exact ⟨_, lookup, _, inner, rfl⟩
  | external lookup => exact ⟨_, lookup, rfl⟩
  | seqNil => exact Language.nil_mem_one
  | seqCons _ _ ihe ihs => exact Language.append_mem_mul ihe ihs
  | choice mem _ ih => exact mem_unionLanguage.2 ⟨_, mem, ih⟩
  | repeatNil => exact Language.nil_mem_kstar _
  | repeatCons _ _ ihe ihs => exact Rule.append_mem_kstar ihe ihs
  | prec _ ih | aliased _ ih | field _ ih => exact ⟨_, ih, rfl⟩

theorem Derives.flatten {e : Expr} {parts : List (List Letter)}
    (h : ∀ u ∈ parts, Derives n e u) : Derives n (.repeated e) parts.flatten := by
  induction parts with
  | nil => exact .repeatNil
  | cons u us ih =>
    exact .repeatCons (h u (by simp)) (ih fun v hv => h v (by simp [hv]))

mutual

theorem derives_of_mem : (e : Expr) → {w : List Letter} →
    w ∈ e.language (derivedFrom n) enclosed → Derives n e w
  | .symbol _, _, h => h
  | .seq es, _, h => derives_seq_of_mem es h
  | .choice es, _, h => by
    obtain ⟨e, he, hw⟩ := derives_choice_of_mem es h
    exact .choice he hw
  | .repeated e, _, h => by
    obtain ⟨parts, rfl, hparts⟩ := h
    exact .flatten fun u hu => derives_of_mem e (hparts u hu)
  | .prec _ _ e, _, h => by
    obtain ⟨u, hu, rfl⟩ := h
    exact .prec (derives_of_mem e hu)
  | .aliased e _ _, _, h => by
    obtain ⟨u, hu, rfl⟩ := h
    exact .aliased (derives_of_mem e hu)
  | .field _ e, _, h => by
    obtain ⟨u, hu, rfl⟩ := h
    exact .field (derives_of_mem e hu)

theorem derives_seq_of_mem : (es : List Expr) → {w : List Letter} →
    w ∈ productLanguage (derivedFrom n) enclosed es → Derives n (.seq es) w
  | [], _, h => by
    obtain rfl := (Language.mem_one _).1 h
    exact .seqNil
  | e :: es, _, h => by
    obtain ⟨u, hu, v, hv, rfl⟩ := Language.mem_mul.1 h
    exact .seqCons (derives_of_mem e hu) (derives_seq_of_mem es hv)

theorem derives_choice_of_mem : (es : List Expr) → {w : List Letter} →
    w ∈ unionLanguage (derivedFrom n) enclosed es → ∃ e ∈ es, Derives n e w
  | [], _, h => absurd h (Language.notMem_zero _)
  | e :: es, _, h => by
    rcases h with h | h
    · exact ⟨e, by simp, derives_of_mem e h⟩
    · obtain ⟨f, hf, hw⟩ := derives_choice_of_mem es h
      exact ⟨f, by simp [hf], hw⟩

end

theorem derivedFrom_eq (s : Symbol) :
    derivedFrom n s = n.language (fun i => derivedFrom n (.rule i)) s := by
  ext w
  cases s with
  | rule i => rfl
  | lexical i =>
    constructor
    · intro h
      cases h with
      | lexical lookup inner => exact ⟨_, lookup, _, inner, rfl⟩
    · rintro ⟨content, lookup, u, hu, rfl⟩
      exact .lexical lookup hu
  | external i =>
    constructor
    · intro h
      cases h with
      | external lookup => exact ⟨_, lookup, rfl⟩
    · rintro ⟨token, lookup, rfl⟩
      exact .external lookup

theorem derives_rule_iff {i : ℕ} {body : Expr} (lookup : n.bodies[i]? = some body)
    {w : List Letter} : Derives n (.symbol (.rule i)) w ↔ Derives n body w := by
  constructor
  · intro h
    cases h with
    | rule lookup' inner =>
      obtain rfl := Option.some.inj (lookup'.symm.trans lookup)
      exact inner
  · exact .rule lookup

theorem derives_iff_mem {e : Expr} {w : List Letter} :
    Derives n e w ↔ w ∈ e.language (derivedFrom n) enclosed := by
  have same : derivedFrom n = n.language fun i => derivedFrom n (.rule i) :=
    funext derivedFrom_eq
  refine ⟨fun h => ?_, derives_of_mem e⟩
  rw [same]
  refine h.mem_language fun i body lookup => ?_
  rw [← same]
  exact fun _ hw => .rule lookup (derives_of_mem body hw)

end Expr

end Productions
