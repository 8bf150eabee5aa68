import Productions.Proofs.Canonical
import Productions.Proofs.Lowering.Shape

/-! Canonical expressions. Whatever a rule is lowered to is canonical, and a canonical expression is
what flattening makes of its members. -/
namespace Productions

namespace Expr

def IsSeq : Expr → Prop
  | seq _ => True
  | _ => False

def IsChoice : Expr → Prop
  | choice _ => True
  | _ => False

/-- Nothing to flatten, no sequence or choice of one member, and no alternative twice. -/
inductive Canonical : Expr → Prop where
  | symbol (s) : Canonical (symbol s)
  | seq {members} (each : ∀ e ∈ members, Canonical e) (flat : ∀ e ∈ members, ¬ e.IsSeq)
      (several : members.length ≠ 1) : Canonical (seq members)
  | choice {members} (each : ∀ e ∈ members, Canonical e) (flat : ∀ e ∈ members, ¬ e.IsChoice)
      (distinct : members.Nodup) (several : members.length ≠ 1) : Canonical (choice members)
  | repeated {content} (inner : Canonical content) : Canonical (repeated content)
  | prec {value assoc content} (inner : Canonical content) : Canonical (prec value assoc content)
  | aliased {content value named} (inner : Canonical content) :
      Canonical (aliased content value named)
  | field {name content} (inner : Canonical content) : Canonical (field name content)

theorem Canonical.of_mem_seqParts {e part : Expr} (h : Canonical e) (mem : part ∈ e.seqParts) :
    Canonical part ∧ ¬ part.IsSeq := by
  cases h with
  | seq each flat _ => exact ⟨each part mem, flat part mem⟩
  | _ =>
    rw [List.mem_singleton.1 mem]
    exact ⟨by constructor <;> assumption, nofun⟩

theorem Canonical.of_mem_choiceParts {e part : Expr} (h : Canonical e)
    (mem : part ∈ e.choiceParts) : Canonical part ∧ ¬ part.IsChoice := by
  cases h with
  | choice each flat _ _ => exact ⟨each part mem, flat part mem⟩
  | _ =>
    rw [List.mem_singleton.1 mem]
    exact ⟨by constructor <;> assumption, nofun⟩

theorem canonical_makeSeq {es : List Expr} (h : ∀ e ∈ es, Canonical e) :
    Canonical (makeSeq es) := by
  have parts : ∀ part ∈ es.flatMap seqParts, Canonical part ∧ ¬ part.IsSeq := by
    intro part mem
    obtain ⟨e, he, mem⟩ := List.mem_flatMap.1 mem
    exact (h e he).of_mem_seqParts mem
  unfold makeSeq
  split
  · rename_i e one
    exact (parts e (by simp [one])).1
  · rename_i several
    refine .seq (fun e he => (parts e he).1) (fun e he => (parts e he).2) fun one => ?_
    obtain ⟨e, one⟩ := List.length_eq_one_iff.1 one
    exact several e one

theorem canonical_makeChoice {es : List Expr} (h : ∀ e ∈ es, Canonical e) :
    Canonical (makeChoice es) := by
  have parts : ∀ part ∈ (OrderedSet.ofList (es.flatMap choiceParts)).toList,
      Canonical part ∧ ¬ part.IsChoice := by
    intro part mem
    rw [OrderedSet.mem_toList, OrderedSet.mem_ofList] at mem
    obtain ⟨e, he, mem⟩ := List.mem_flatMap.1 mem
    exact (h e he).of_mem_choiceParts mem
  unfold makeChoice
  split
  · rename_i e one
    exact (parts e (by simp [one])).1
  · rename_i several
    refine .choice (fun e he => (parts e he).1) (fun e he => (parts e he).2)
      (OrderedSet.nodup _) fun one => ?_
    obtain ⟨e, one⟩ := List.length_eq_one_iff.1 one
    exact several e one

theorem makeSeq_eq_seq {es : List Expr} (flat : ∀ e ∈ es, ¬ e.IsSeq) (several : es.length ≠ 1) :
    makeSeq es = seq es := by
  have parts : es.flatMap seqParts = es := by
    refine (List.flatMap_congr fun e he => ?_).trans (List.flatMap_singleton' es)
    cases e with
    | seq => exact absurd trivial (flat _ he)
    | _ => rfl
  unfold makeSeq
  rw [parts]
  split
  · exact absurd rfl several
  · rfl

theorem makeChoice_eq_choice {es : List Expr} (flat : ∀ e ∈ es, ¬ e.IsChoice)
    (distinct : es.Nodup) (several : es.length ≠ 1) : makeChoice es = choice es := by
  have parts : es.flatMap choiceParts = es := by
    refine (List.flatMap_congr fun e he => ?_).trans (List.flatMap_singleton' es)
    cases e with
    | choice => exact absurd trivial (flat _ he)
    | _ => rfl
  unfold makeChoice
  rw [parts, OrderedSet.toList_ofList_of_nodup distinct]
  split
  · exact absurd rfl several
  · rfl

end Expr

namespace Naming

variable {n : Naming} {L : Lexicon}

theorem lowered_of_isLeaf {leaf : Rule} (h : leaf.IsLeaf) :
    n.lowered L leaf = ((n.symbolIn L leaf).map Expr.symbol).getD .blank := by
  cases leaf with
  | terminal | symbol | token => rfl
  | _ => exact h.elim

theorem canonical_lowered_leaf {leaf : Rule} (h : leaf.IsLeaf) :
    (n.lowered L leaf).Canonical := by
  rw [lowered_of_isLeaf h]
  cases n.symbolIn L leaf with
  | none => exact .seq (by simp) (by simp) (by simp)
  | some s => exact .symbol s

mutual

theorem canonical_lowered : (r : Rule) → (n.lowered L r).Canonical
  | .terminal _ | .symbol _ | .token _ _ => canonical_lowered_leaf trivial
  | .seq members => Expr.canonical_makeSeq (canonical_loweredAll members)
  | .choice members => Expr.canonical_makeChoice (canonical_loweredAll members)
  | .repeated content _ => .repeated (canonical_lowered content)
  | .optional content => canonical_lowered content
  | .prec _ _ content => .prec (canonical_lowered content)
  | .aliased content _ _ => .aliased (canonical_lowered content)
  | .field _ content => .field (canonical_lowered content)

theorem canonical_loweredAll : (rules : List Rule) → ∀ e ∈ n.loweredAll L rules, e.Canonical
  | [], e, he => absurd he (by simp [loweredAll])
  | r :: rs, e, he => by
    rcases List.mem_cons.1 he with rfl | he
    · exact canonical_lowered r
    · exact canonical_loweredAll rs e he

end

end Naming

end Productions
