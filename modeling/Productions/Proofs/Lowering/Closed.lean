import Productions.Normal.Lowering
import Productions.Proofs.Canonical
import Productions.Proofs.Levels

/-! Contents of tokens. They refer to nothing and hold no token, alias or field, so there is nothing
left to replace or to drop in them. -/
namespace Productions

namespace Rule

/-- Terminals under sequences, choices, repetitions, optional parts and precedences only. -/
inductive Closed : Rule → Prop where
  | terminal (t) : Closed (terminal t)
  | seq {members} (each : ∀ r ∈ members, Closed r) : Closed (seq members)
  | choice {members} (each : ∀ r ∈ members, Closed r) : Closed (choice members)
  | repeated {content repetition} (inner : Closed content) : Closed (repeated content repetition)
  | optional {content} (inner : Closed content) : Closed (optional content)
  | prec {value assoc content} (inner : Closed content) : Closed (prec value assoc content)

theorem closed_blank : Closed blank := .seq (by simp)

theorem closed_makeSeq {rules : List Rule} (h : ∀ r ∈ rules, Closed r) :
    Closed (makeSeq rules) := by
  have parts : ∀ part ∈ rules.flatMap seqParts, Closed part := by
    intro part mem
    obtain ⟨r, hr, mem⟩ := List.mem_flatMap.1 mem
    cases h r hr with
    | seq each => exact each part mem
    | _ =>
      rw [List.mem_singleton.1 mem]
      exact h _ hr
  unfold makeSeq
  split
  · rename_i r one
    exact parts r (by simp [one])
  · exact .seq parts

theorem closed_makeChoice {rules : List Rule} (h : ∀ r ∈ rules, Closed r) :
    Closed (makeChoice rules) := by
  have parts : ∀ part ∈ (OrderedSet.ofList (rules.flatMap choiceParts)).toList, Closed part := by
    intro part mem
    rw [OrderedSet.mem_toList, OrderedSet.mem_ofList] at mem
    obtain ⟨r, hr, mem⟩ := List.mem_flatMap.1 mem
    cases h r hr with
    | choice each => exact each part mem
    | _ =>
      rw [List.mem_singleton.1 mem]
      exact h _ hr
  unfold makeChoice
  split
  · rename_i r one
    exact parts r (by simp [one])
  · exact .choice parts

theorem forall_mem_canonicalizeAll {rules : List Rule} (h : ∀ r ∈ rules, Closed r.canonicalize) :
    ∀ r ∈ canonicalizeAll rules, Closed r := by
  intro r hr
  rw [canonicalizeAll_eq_map] at hr
  obtain ⟨s, hs, rfl⟩ := List.mem_map.1 hr
  exact h s hs

theorem Closed.canonicalize {r : Rule} (h : Closed r) : Closed r.canonicalize := by
  induction h with
  | terminal t => exact .terminal t
  | seq _ ih => exact closed_makeSeq (forall_mem_canonicalizeAll ih)
  | choice _ ih => exact closed_makeChoice (forall_mem_canonicalizeAll ih)
  | @repeated content repetition _ ih =>
    cases repetition with
    | zeroOrMore => exact .repeated ih
    | oneOrMore =>
      refine closed_makeSeq fun r hr => ?_
      simp only [List.mem_cons, List.not_mem_nil, or_false] at hr
      rcases hr with rfl | rfl
      · exact ih
      · exact .repeated ih
  | optional _ ih =>
    refine closed_makeChoice fun r hr => ?_
    simp only [List.mem_cons, List.not_mem_nil, or_false] at hr
    rcases hr with rfl | rfl
    · exact ih
    · exact closed_blank
  | prec _ ih => exact .prec ih

theorem Closed.resolveLevels {levels : Levels} {r : Rule} (h : Closed r) :
    Closed (r.resolveLevels levels) := by
  induction h with
  | terminal t => exact .terminal t
  | seq _ ih =>
    rw [Rule.resolveLevels, resolveLevelsAll_eq_map]
    refine .seq fun r hr => ?_
    obtain ⟨s, hs, rfl⟩ := List.mem_map.1 hr
    exact ih s hs
  | choice _ ih =>
    rw [Rule.resolveLevels, resolveLevelsAll_eq_map]
    refine .choice fun r hr => ?_
    obtain ⟨s, hs, rfl⟩ := List.mem_map.1 hr
    exact ih s hs
  | repeated _ ih => exact .repeated ih
  | optional _ ih => exact .optional ih
  | prec _ ih => exact .prec ih

theorem Closed.occurrences_eq {r : Rule} (h : Closed r) : r.occurrences = [] := by
  induction h with
  | terminal => rfl
  | seq _ ih | choice _ ih =>
    rw [occurrences, occurrencesAll_eq_flatMap]
    exact List.flatMap_eq_nil_iff.2 ih
  | repeated _ ih | optional _ ih | prec _ ih => exact ih

end Rule

namespace TokenContent

open Rule

variable {replace : String → Rule}

theorem closeAll_eq_self {rules : List Rule} (h : ∀ r ∈ rules, close replace r = r) :
    closeAll replace rules = rules := by
  induction rules with
  | nil => rfl
  | cons r rs ih => rw [closeAll, h r (by simp), ih fun s hs => h s (by simp [hs])]

theorem close_eq_self {r : Rule} (h : Closed r) : close replace r = r := by
  induction h with
  | terminal => rfl
  | seq _ ih | choice _ ih => rw [close, closeAll_eq_self ih]
  | repeated _ ih | optional _ ih | prec _ ih => rw [close, ih]

mutual

theorem closed_close (h : ∀ name, Closed (replace name)) : (r : Rule) → Closed (close replace r)
  | .terminal t => .terminal t
  | .symbol name => h name
  | .seq members => .seq (closed_closeAll h members)
  | .choice members => .choice (closed_closeAll h members)
  | .repeated content _ => .repeated (closed_close h content)
  | .optional content => .optional (closed_close h content)
  | .prec _ _ content => .prec (closed_close h content)
  | .token content _ | .aliased content _ _ | .field _ content => closed_close h content

theorem closed_closeAll (h : ∀ name, Closed (replace name)) : (rules : List Rule) →
    ∀ r ∈ closeAll replace rules, Closed r
  | [], r, hr => absurd hr (by simp [closeAll])
  | rule :: rules, r, hr => by
    rcases List.mem_cons.1 hr with rfl | hr
    · exact closed_close h rule
    · exact closed_closeAll h rules r hr

end

theorem closed_replacement (t : SymbolTable) (bodies : OrderedMap String Rule) (fuel : Nat) :
    ∀ (chain : List String) (name : String), Closed (replacement t bodies fuel chain name) := by
  induction fuel with
  | zero => exact fun _ _ => closed_blank
  | succ fuel ih =>
    intro chain name
    rw [replacement]
    split
    · exact closed_close (ih _) _
    · exact closed_blank

theorem closed_of (t : SymbolTable) (bodies : OrderedMap String Rule) (chain : List String)
    (rule : Rule) : Closed (TokenContent.of t bodies chain rule) :=
  closed_close (closed_replacement t bodies _ chain) rule

theorem of_eq_self {t : SymbolTable} {bodies : OrderedMap String Rule} {chain : List String}
    {rule : Rule} (h : Closed rule) : TokenContent.of t bodies chain rule = rule :=
  close_eq_self h

theorem reports_of_closed {t : SymbolTable} {bodies : OrderedMap String Rule} {owner : String}
    {chain : List String} {rule : Rule} (h : Closed rule) :
    reports t bodies owner chain rule = [] := by
  rw [reports, h.occurrences_eq]
  rfl

end TokenContent

end Productions
