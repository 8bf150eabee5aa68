import Productions.Normal.OfGrammar
import Productions.Proofs.Lowering.Tokens
import Productions.Proofs.Runs

/-! The reports of lowering. Whatever the rules look like, they are about the content of tokens and
about extras. -/
namespace Productions

namespace Lowering

def Reported (s : Lowering) : Prop :=
  ∀ d ∈ s.reports, d.kind = .invalidTokenContent ∨ d.kind = .invalidExtra

theorem Reported.append {s : Lowering} (h : Reported s) {ds : List Diagnostic}
    (new : ∀ d ∈ ds, d.kind = .invalidTokenContent ∨ d.kind = .invalidExtra) :
    Reported { s with reports := s.reports ++ ds } := by
  intro d hd
  rcases List.mem_append.1 hd with hd | hd
  · exact h d hd
  · exact new d hd

variable (n : Naming) {owner : String}

theorem reported_tokenContent (chain : List String) (rule : Rule) :
    Preserves Reported (tokenContent n owner chain rule) := by
  refine .bind (.of_modify fun s hs => hs.append ?_) fun _ => .of_pure _
  intro d hd
  exact .inl (TokenContent.kind_of_mem_reports hd)

theorem reported_internAnonymous (content : Rule) (immediate : Bool) :
    Preserves Reported (internAnonymous content immediate owner) := by
  apply Preserves.get_bind
  intro s hs
  exact hs

theorem reported_namedToken (name : String) : Preserves Reported (namedToken n name) := by
  apply Preserves.get_bind
  intro s hs
  split
  · exact hs
  · -- Entering the token changes the lexical table only.
    refine (reported_tokenContent n _ _).bind (fun content => ?_) s hs
    apply Preserves.get_bind
    intro s hs
    exact hs

theorem reported_resolve (name : String) : Preserves Reported (resolve n name) := by
  unfold resolve
  split
  · exact .of_pure _
  · split
    · exact (reported_namedToken n name).bind fun _ => .of_pure _
    · exact .of_pure _
    · exact .of_pure _

theorem reported_terminal (t : Terminal) : Preserves Reported (terminal n owner t) := by
  unfold terminal
  dsimp only
  split
  · exact .of_pure _
  · exact reported_internAnonymous _ _

mutual

theorem reported_lowerWith {sugar : Rule → StateM Lowering Expr}
    (sugared : ∀ r, Preserves Reported (sugar r)) : (r : Rule) →
    Preserves Reported (lowerWith n owner sugar r)
  | .terminal t => (reported_terminal n t).bind fun _ => .of_pure _
  | .token content immediate => (reported_tokenContent n _ content).bind fun _ =>
    (reported_internAnonymous _ immediate).bind fun _ => .of_pure _
  | .symbol name => by
    refine (reported_resolve n name).bind fun symbol => ?_
    split <;> exact .of_pure _
  | .seq members | .choice members =>
    (reported_lowerAllWith sugared members).bind fun _ => .of_pure _
  | .repeated content .oneOrMore | .optional content => sugared _
  | .repeated content .zeroOrMore | .prec _ _ content | .aliased content _ _ | .field _ content =>
    (reported_lowerWith sugared content).bind fun _ => .of_pure _

theorem reported_lowerAllWith {sugar : Rule → StateM Lowering Expr}
    (sugared : ∀ r, Preserves Reported (sugar r)) : (rules : List Rule) →
    Preserves Reported (lowerAllWith n owner sugar rules)
  | [] => .of_pure _
  | r :: rs => (reported_lowerWith sugared r).bind fun _ =>
    (reported_lowerAllWith sugared rs).bind fun _ => .of_pure _

end

theorem reported_lower (rule : Rule) : Preserves Reported (lower n owner rule) :=
  reported_lowerWith n (fun _ => reported_lowerWith n (fun _ => .of_pure _) _) rule

end Lowering

namespace NormalForm

open Lowering

variable (n : Naming)

theorem reported_lowerBody (info : SymbolInfo) : Preserves Reported (lowerBody n info) := by
  unfold lowerBody
  split
  · exact (reported_namedToken n _).bind fun _ => .of_pure _
  · exact reported_lower n _

theorem reported_lowerVariables (inlined : OrderedMap String Inlined) (infos : List SymbolInfo) :
    Preserves Reported (lowerVariables n inlined infos) := by
  induction infos with
  | nil => exact .of_pure _
  | cons info infos ih =>
    exact (reported_lowerBody n info).bind fun _ => ih.bind fun _ => .of_pure _

theorem reported_lowerExtras (place : Nat) (extras : List Rule) :
    Preserves Reported (lowerExtras n place extras) := by
  induction extras generalizing place with
  | nil => exact .of_pure _
  | cons extra extras ih =>
    refine (reported_lower n extra).bind fun body => ?_
    split
    · exact (ih _).bind fun _ => .of_pure _
    · refine .bind (.of_modify fun s hs => hs.append ?_) fun _ => ih _
      intro d hd
      rw [List.mem_singleton.1 hd]
      exact .inr rfl

theorem reported_lowerTokens (infos : List SymbolInfo) :
    Preserves Reported (lowerTokens n infos) := by
  induction infos with
  | nil => exact .of_pure _
  | cons info infos ih =>
    unfold lowerTokens
    split
    · exact ((reported_namedToken n _).map _).bind fun _ => ih
    · exact ih

theorem reported_lowerHidden (start : String) (infos : List SymbolInfo) :
    Preserves Reported (lowerHidden n start infos) := by
  induction infos with
  | nil => exact .of_pure _
  | cons info infos ih =>
    unfold lowerHidden
    split
    · exact (reported_lower n _).bind fun _ => ih.bind fun _ => .of_pure _
    · exact ih

theorem reported_lowerParts (g : Grammar) (inlined : OrderedMap String Inlined)
    (extras : List Rule) (kept : List SymbolInfo) (start : String) :
    Preserves Reported (lowerParts g n inlined extras kept start) := by
  refine (reported_lowerVariables n inlined kept).bind fun vars =>
    (reported_lowerExtras n 1 extras).bind fun extras => ?_
  have rest (word : Option Symbol) : Preserves Reported (do
      lowerTokens n n.table.infos
      let expansions ← lowerHidden n start n.table.infos
      return (⟨vars, extras, word, expansions⟩ : Lowered)) :=
    (reported_lowerTokens n _).bind fun _ => (reported_lowerHidden n start _).bind fun _ =>
      .of_pure _
  split
  · exact (reported_resolve n _).bind rest
  · exact rest none

end NormalForm

end Productions
