import Productions.Proofs.Lowering.Canonical
import Productions.Proofs.Normal.Structure
import Productions.Proofs.Ordered
import Productions.Proofs.Subtrees

/-! The shape of lowered bodies. Lowering can make parts equal that were written differently, and
can turn parts into the blank expression; nested sequences and choices, single members and equal
alternatives are gone all the same, in every body that lowering returns from any state. -/
namespace Productions

namespace Expr

/-- A node that could be flattened, unwrapped or made smaller. -/
inductive Reducible : Expr → Prop where
  | seqInSeq {members inner} (mem : seq inner ∈ members) : Reducible (seq members)
  | choiceInChoice {members inner} (mem : choice inner ∈ members) : Reducible (choice members)
  | oneMember (e) : Reducible (seq [e])
  | oneAlternative (e) : Reducible (choice [e])
  | equalAlternatives {members} (twice : ¬ members.Nodup) : Reducible (choice members)

def Reduced (e : Expr) : Prop := ∀ s, Within s e → ¬ Reducible s

theorem Canonical.of_mem_children {e c : Expr} (h : Canonical e) (mem : c ∈ e.children) :
    Canonical c := by
  cases h with
  | symbol => cases mem
  | seq each _ _ | choice each _ _ _ => exact each c mem
  | repeated inner | prec inner | aliased inner | field inner =>
    rwa [List.mem_singleton.1 mem]

theorem Canonical.of_within {s e : Expr} (inside : Within s e) (h : Canonical e) : Canonical s := by
  induction inside with
  | self => exact h
  | child mem _ ih => exact ih (h.of_mem_children mem)

theorem Canonical.not_reducible {e : Expr} (h : Canonical e) : ¬ Reducible e := by
  intro reducible
  cases reducible with
  | seqInSeq mem =>
    cases h with
    | seq _ flat _ => exact flat _ mem trivial
  | choiceInChoice mem =>
    cases h with
    | choice _ flat _ _ => exact flat _ mem trivial
  | oneMember e =>
    cases h with
    | seq _ _ several => exact several rfl
  | oneAlternative e =>
    cases h with
    | choice _ _ _ several => exact several rfl
  | equalAlternatives twice =>
    cases h with
    | choice _ _ distinct _ => exact twice distinct

theorem Canonical.reduced {e : Expr} (h : Canonical e) : Reduced e :=
  fun _ inside => (h.of_within inside).not_reducible

theorem canonical_blank : Canonical blank := .seq (by simp) (by simp) (by simp)

end Expr

namespace Lowering

open Productions.Expr

variable {n : Naming} {owner : String} {sugar : Rule → StateM Lowering Expr}

mutual

/-- One case for each kind of node; sequences and choices are put together anew from what their
members have become. -/
theorem canonical_lowerWith (sugared : ∀ r, Yields Canonical (sugar r)) : (r : Rule) →
    Yields Canonical (lowerWith n owner sugar r)
  | .terminal t => .after _ fun s => .of_pure (.symbol s)
  | .token content immediate => .after _ fun _ => .after _ fun s => .of_pure (.symbol s)
  | .symbol name => .after _ fun found => by
    split
    · exact .of_pure (.symbol _)
    · exact .of_pure canonical_blank
  | .seq members =>
    (canonical_lowerAllWith sugared members).bind fun _ each => .of_pure (canonical_makeSeq each)
  | .choice members =>
    (canonical_lowerAllWith sugared members).bind fun _ each => .of_pure (canonical_makeChoice each)
  | .repeated content .zeroOrMore =>
    (canonical_lowerWith sugared content).bind fun _ inner => .of_pure (.repeated inner)
  | .repeated _ .oneOrMore | .optional _ => sugared _
  | .prec _ _ content =>
    (canonical_lowerWith sugared content).bind fun _ inner => .of_pure (.prec inner)
  | .aliased content _ _ =>
    (canonical_lowerWith sugared content).bind fun _ inner => .of_pure (.aliased inner)
  | .field _ content =>
    (canonical_lowerWith sugared content).bind fun _ inner => .of_pure (.field inner)

theorem canonical_lowerAllWith (sugared : ∀ r, Yields Canonical (sugar r)) :
    (rules : List Rule) → Yields (∀ e ∈ ·, Canonical e) (lowerAllWith n owner sugar rules)
  | [] => .of_pure (by simp)
  | r :: rs =>
    (canonical_lowerWith sugared r).bind fun _ first =>
      (canonical_lowerAllWith sugared rs).bind fun _ rest =>
        .of_pure (List.forall_mem_cons.2 ⟨first, rest⟩)

end

theorem canonical_lower (r : Rule) : Yields Canonical (lower n owner r) :=
  canonical_lowerWith (fun _ => canonical_lowerWith (fun _ => .of_pure canonical_blank) _) r

end Lowering

namespace NormalForm

open Productions.Expr Lowering

variable {n : Naming}

theorem canonical_lowerBody (info : SymbolInfo) : Yields Canonical (lowerBody n info) := by
  unfold lowerBody
  split
  · exact .after _ fun id => .of_pure (.symbol _)
  · exact canonical_lower _

theorem canonical_lowerVariables (inlined : OrderedMap String Inlined) (infos : List SymbolInfo) :
    Yields (∀ v ∈ ·, v.body.Canonical) (lowerVariables n inlined infos) := by
  induction infos with
  | nil => exact .of_pure (by simp)
  | cons info infos ih =>
    exact (canonical_lowerBody info).bind fun _ body => ih.bind fun _ rest =>
      .of_pure (List.forall_mem_cons.2 ⟨body, rest⟩)

theorem canonical_lowerHidden (start : String) (infos : List SymbolInfo) :
    Yields (∀ e ∈ ·, e.2.Canonical) (lowerHidden n start infos) := by
  induction infos with
  | nil => exact .of_pure (by simp)
  | cons info infos ih =>
    unfold lowerHidden
    split
    · exact (canonical_lower _).bind fun _ body => ih.bind fun _ rest =>
        .of_pure (List.forall_mem_cons.2 ⟨body, rest⟩)
    · exact ih

theorem canonical_lowerParts (g : Grammar) (inlined : OrderedMap String Inlined)
    (extras : List Rule) (kept : List SymbolInfo) (start : String) :
    Yields (fun parts => (∀ v ∈ parts.vars, v.body.Canonical)
      ∧ ∀ e ∈ parts.expansions, e.2.Canonical) (lowerParts g n inlined extras kept start) := by
  refine (canonical_lowerVariables inlined kept).bind fun vars bodies => .after _ fun extras => ?_
  have rest (word : Option Symbol) : Yields (fun parts => (∀ v ∈ parts.vars, v.body.Canonical)
      ∧ ∀ e ∈ parts.expansions, e.2.Canonical) (do
      lowerTokens n n.table.infos
      let expansions ← lowerHidden n start n.table.infos
      return (⟨vars, extras, word, expansions⟩ : Lowered)) :=
    .after _ fun _ => (canonical_lowerHidden start _).bind fun _ hidden => .of_pure ⟨bodies, hidden⟩
  split
  · exact .after _ rest
  · exact rest none

/-- Every body of a variable and every expansion of a hidden rule is reduced, whatever is reported
on the way. -/
theorem reduced_ofGrammar (g : Grammar) (t : SymbolTable) (start : String) :
    (∀ v ∈ (ofGrammar g t start).1.vars, v.body.Reduced)
      ∧ ∀ e ∈ (ofGrammar g t start).1.expansions.entries, e.2.Reduced := by
  obtain ⟨bodies, hidden⟩ := canonical_lowerParts g (inlinedRules t) (extrasRun g t).1
    (keptRules t start) start (n := namingOf g t start) Lowering.start
  constructor
  · intro v mem
    exact (bodies v mem).reduced
  · intro e mem
    exact (hidden e (OrderedMap.mem_of_mem_ofList mem)).reduced

/-- The second alternative is the first one with a token for its letter and with a name in it that
stands for nothing, which is an error. -/
def sameLetters : Grammar :=
  { Grammar.empty "letters" with
    rules := [⟨"letters", .choice [.seq [.terminal (.literal "x"), .terminal (.literal "y")],
      .seq [.token (.terminal (.literal "x")) false, .symbol "gone", .terminal (.literal "y")],
      .terminal (.literal "z")], false⟩] }

theorem reduced_ofGrammar_sameLetters :
    (Symbols.resolve sameLetters).2.any Diagnostic.isError = true
      ∧ (ofGrammar sameLetters (Symbols.resolve sameLetters).1 "letters").1.bodies
        = [.choice [.seq [.symbol (.lexical 0), .symbol (.lexical 1)], .symbol (.lexical 2)]]
      ∧ ∀ e ∈ (ofGrammar sameLetters (Symbols.resolve sameLetters).1 "letters").1.bodies,
        e.Reduced := by
  obtain ⟨bodies, -⟩ := reduced_ofGrammar sameLetters (Symbols.resolve sameLetters).1 "letters"
  refine ⟨by cbv, of_decide_eq_true (by cbv), ?_⟩
  intro e mem
  obtain ⟨v, found, rfl⟩ := List.mem_map.1 mem
  exact bodies v found

end NormalForm

end Productions
