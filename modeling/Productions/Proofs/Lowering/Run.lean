import Mathlib.Logic.Relation
import Productions.Proofs.Lowering.Shape
import Productions.Proofs.Runs

/-! Runs of lowering. Each step enters one terminal, one token or one token rule, or adds a report.
What holds of the lexical table at every step holds at the end of every run. -/
namespace Productions.Lowering

open Relation

variable {n : Naming}

inductive Step (n : Naming) : Lowering → Lowering → Prop where
  | terminal {s : Lowering} (t owner) (inside : n.outside? t = none) :
      Step n s { s with lexicon := (s.lexicon.internAnonymous (.terminal t) false owner).2 }
  | token {s : Lowering} (content immediate owner) :
      Step n s ⟨(s.lexicon.internAnonymous (n.innerContent content) immediate owner).2,
        s.reports ++ n.innerReports owner content⟩
  | named {s : Lowering} (name) (kind : n.table.kind? name = some .token)
      (new : s.lexicon.findNamed? name = none) :
      Step n s ⟨(s.lexicon.internNamed name (n.namedContent name) (n.tokenBody name).2).2,
        s.reports ++ n.namedReports name⟩
  | report {s : Lowering} (d : Diagnostic) (error : d.isError = true) :
      Step n s { s with reports := s.reports ++ [d] }

abbrev Steps (n : Naming) : Lowering → Lowering → Prop := ReflTransGen (Step n)

variable {s s' : Lowering}

theorem Step.entries (h : Step n s s') : s.lexicon.entries <+: s'.lexicon.entries := by
  cases h with
  | terminal | token => exact Lexicon.prefix_internAnonymous _ _ _ _
  | named name kind new =>
    rw [Lexicon.internNamed_of_new new]
    exact List.prefix_append _ _
  | report => exact List.prefix_rfl

theorem Step.reports (h : Step n s s') : s.reports <+: s'.reports := by
  cases h with
  | terminal => exact List.prefix_rfl
  | token | named | report => exact List.prefix_append _ _

theorem Steps.entries (h : Steps n s s') : s.lexicon.entries <+: s'.lexicon.entries := by
  induction h with
  | refl => exact List.prefix_rfl
  | tail _ step ih => exact ih.trans step.entries

theorem Steps.reports (h : Steps n s s') : s.reports <+: s'.reports := by
  induction h with
  | refl => exact List.prefix_rfl
  | tail _ step ih => exact ih.trans step.reports

theorem Steps.silent (h : Steps n s s') (none : s'.reports = []) : s.reports = [] := by
  simpa [none] using h.reports

theorem nameIn_of_grown {L L' : Lexicon} (h : L.entries <+: L'.entries) {name : String}
    (placed : n.Placed L (.symbol name)) : n.nameIn L name = n.nameIn L' name := by
  unfold Naming.nameIn
  cases vars : n.vars.get? name with
  | some id => rfl
  | none =>
    dsimp only
    split <;> rename_i kind
    · obtain ⟨id, found⟩ := Option.isSome_iff_exists.1 (placed vars kind)
      rw [found, Lexicon.findNamed?_of_grown h found]
    · rfl
    · rfl

theorem symbolIn_of_grown {L L' : Lexicon} (h : L.entries <+: L'.entries) {leaf : Rule}
    (placed : n.Placed L leaf) : n.symbolIn L leaf = n.symbolIn L' leaf := by
  cases leaf with
  | terminal t =>
    simp only [Naming.Placed, Naming.symbolIn, Option.isSome_or, Option.isSome_map] at placed
    simp only [Naming.symbolIn]
    cases outside : n.outside? t with
    | some id => rfl
    | none =>
      simp only [outside, Option.isSome_none, Bool.false_or] at placed
      obtain ⟨id, found⟩ := Option.isSome_iff_exists.1 placed
      rw [found, Lexicon.findAnonymous?_of_grown h found]
  | token content immediate =>
    have isSome := placed.1
    simp only [Naming.symbolIn, Option.isSome_map] at isSome ⊢
    obtain ⟨id, found⟩ := Option.isSome_iff_exists.1 isSome
    rw [found, Lexicon.findAnonymous?_of_grown h found]
  | symbol name => exact nameIn_of_grown h placed
  | _ => rfl

theorem placed_of_grown {L L' : Lexicon} (h : L.entries <+: L'.entries) {leaf : Rule}
    (placed : n.Placed L leaf) : n.Placed L' leaf := by
  have same := symbolIn_of_grown h placed
  cases leaf with
  | terminal t =>
    simp only [Naming.Placed] at placed ⊢
    rwa [← same]
  | token content immediate =>
    simp only [Naming.Placed] at placed ⊢
    rwa [← same]
  | symbol name =>
    intro vars kind
    obtain ⟨id, found⟩ := Option.isSome_iff_exists.1 (placed vars kind)
    rw [Lexicon.findNamed?_of_grown h found]
    rfl
  | _ => trivial

mutual

theorem lowered_of_grown {L L' : Lexicon} (h : L.entries <+: L'.entries) : (r : Rule) →
    (∀ leaf ∈ r.leaves, n.Placed L leaf) → n.lowered L r = n.lowered L' r
  | .terminal t, placed | .symbol name, placed | .token content immediate, placed => by
    rw [Naming.lowered, Naming.lowered, symbolIn_of_grown h (placed _ (by simp [Rule.leaves]))]
  | .seq members, placed | .choice members, placed => by
    rw [Naming.lowered, Naming.lowered, loweredAll_of_grown h members placed]
  | .repeated content _, placed | .optional content, placed | .prec _ _ content, placed
  | .aliased content _ _, placed | .field _ content, placed => by
    rw [Naming.lowered, Naming.lowered, lowered_of_grown h content placed]

theorem loweredAll_of_grown {L L' : Lexicon} (h : L.entries <+: L'.entries) :
    (rules : List Rule) → (∀ leaf ∈ Rule.leavesAll rules, n.Placed L leaf) →
    n.loweredAll L rules = n.loweredAll L' rules
  | [], _ => rfl
  | r :: rs, placed => by
    simp only [Rule.leavesAll, List.mem_append] at placed
    rw [Naming.loweredAll, Naming.loweredAll,
      lowered_of_grown h r fun leaf hl => placed leaf (.inl hl),
      loweredAll_of_grown h rs fun leaf hl => placed leaf (.inr hl)]

end

theorem internAnonymous_run {content : Rule} {immediate : Bool} {owner : String} {symbol : Symbol}
    (h : (internAnonymous content immediate owner).run s = (symbol, s')) :
    s' = { s with lexicon := (s.lexicon.internAnonymous content immediate owner).2 }
      ∧ (s'.lexicon.findAnonymous? content immediate).map Symbol.lexical = some symbol := by
  have unfolded : (internAnonymous content immediate owner).run s
      = (.lexical (s.lexicon.internAnonymous content immediate owner).1,
        { s with lexicon := (s.lexicon.internAnonymous content immediate owner).2 }) := rfl
  rw [unfolded, Prod.mk.injEq] at h
  obtain ⟨rfl, rfl⟩ := h
  refine ⟨rfl, ?_⟩
  rw [Lexicon.findAnonymous?_internAnonymous]
  rfl

theorem tokenContent_run {owner : String} {chain : List String} {rule content : Rule}
    (h : (tokenContent n owner chain rule).run s = (content, s')) :
    s' = { s with reports := s.reports ++ TokenContent.reports n.table n.bodies owner chain rule }
      ∧ content = (TokenContent.of n.table n.bodies chain rule).canonicalize := by
  obtain ⟨_, _, hmodify, h⟩ := run_bind_eq_iff.1 h
  obtain rfl := run_modify_eq_iff.1 hmodify
  obtain ⟨rfl, rfl⟩ := run_pure_eq_iff.1 h
  exact ⟨rfl, rfl⟩

theorem namedToken_run {name : String} {id : Nat} (kind : n.table.kind? name = some .token)
    (h : (namedToken n name).run s = (id, s')) :
    Steps n s s' ∧ s'.lexicon.findNamed? name = some id := by
  obtain ⟨_, _, hget, h⟩ := run_bind_eq_iff.1 h
  obtain ⟨rfl, rfl⟩ := run_get_eq_iff.1 hget
  split at h <;> rename_i found
  · obtain ⟨rfl, rfl⟩ := run_pure_eq_iff.1 h
    exact ⟨.refl, found⟩
  · obtain ⟨content, s₁, hcontent, h⟩ := run_bind_eq_iff.1 h
    obtain ⟨rfl, rfl⟩ := tokenContent_run hcontent
    obtain ⟨_, _, hget, h⟩ := run_bind_eq_iff.1 h
    obtain ⟨rfl, rfl⟩ := run_get_eq_iff.1 hget
    obtain ⟨_, _, hset, h⟩ := run_bind_eq_iff.1 h
    obtain rfl := run_set_eq_iff.1 hset
    obtain ⟨rfl, rfl⟩ := run_pure_eq_iff.1 h
    exact ⟨.single (.named name kind found), Lexicon.findNamed?_internNamed found⟩

theorem resolve_run {name : String} {symbol : Option Symbol}
    (h : (resolve n name).run s = (symbol, s')) :
    Steps n s s' ∧ symbol = n.nameIn s'.lexicon name ∧ n.Placed s'.lexicon (.symbol name) := by
  unfold resolve at h
  unfold Naming.nameIn
  cases vars : n.vars.get? name with
  | some id =>
    rw [vars] at h
    obtain ⟨rfl, rfl⟩ := run_pure_eq_iff.1 h
    exact ⟨.refl, rfl, fun absent => by rw [vars] at absent; cases absent⟩
  | none =>
    rw [vars] at h
    dsimp only at h ⊢
    cases kind : n.table.kind? name with
    | none =>
      rw [kind] at h
      obtain ⟨rfl, rfl⟩ := run_pure_eq_iff.1 h
      exact ⟨.refl, rfl, fun _ token => by simp [kind] at token⟩
    | some other =>
      rw [kind] at h
      by_cases token : other = .token
      · subst token
        obtain ⟨id, s₁, run, h⟩ := run_bind_eq_iff.1 h
        obtain ⟨rfl, rfl⟩ := run_pure_eq_iff.1 h
        obtain ⟨steps, found⟩ := namedToken_run kind run
        have entered : (s₁.lexicon.findNamed? name).map Symbol.lexical = some (.lexical id) :=
          congrArg (Option.map Symbol.lexical) found
        exact ⟨steps, entered.symm, fun _ _ => by rw [found]; rfl⟩
      · have outcome : (pure none : StateM Lowering (Option Symbol)).run s = (symbol, s') := by
          cases other with
          | token => exact absurd rfl token
          | nonterminal | lexical | hidden | supertype => exact h
        obtain ⟨rfl, rfl⟩ := run_pure_eq_iff.1 outcome
        refine ⟨.refl, ?_, fun _ same => absurd (Option.some.inj (kind.symm.trans same)) token⟩
        cases other with
        | token => exact absurd rfl token
        | nonterminal | lexical | hidden | supertype => rfl

theorem terminal_eq (n : Naming) (owner : String) (t : Terminal) : terminal n owner t =
    (n.outside? t).elim (internAnonymous (.terminal t) false owner)
      fun id => pure (.external id) := by
  cases t with
  | literal text =>
    simp only [terminal, Naming.outside?]
    cases n.externalId? text false <;> rfl
  | pattern => rfl

theorem terminal_run {owner : String} {t : Terminal} {symbol : Symbol}
    (h : (terminal n owner t).run s = (symbol, s')) :
    Steps n s s' ∧ n.symbolIn s'.lexicon (.terminal t) = some symbol := by
  rw [terminal_eq] at h
  rw [Naming.symbolIn]
  cases outside : n.outside? t with
  | some id =>
    rw [outside] at h
    obtain ⟨rfl, rfl⟩ := run_pure_eq_iff.1 h
    exact ⟨.refl, rfl⟩
  | none =>
    rw [outside] at h
    obtain ⟨rfl, found⟩ := internAnonymous_run h
    exact ⟨.single (.terminal t owner outside), by simpa using found⟩

/-- What a run of lowering does: steps, and where nothing is reported, the rule with its leaves
replaced. -/
def LowersTo (n : Naming) (s s' : Lowering) (r : Rule) (e : Expr) : Prop :=
  Steps n s s' ∧ (s'.reports = [] →
    e = n.lowered s'.lexicon r ∧ ∀ leaf ∈ r.leaves, n.Placed s'.lexicon leaf)

mutual

theorem lowerWith_run {owner : String} {sugar : Rule → StateM Lowering Expr} : (r : Rule) →
    r.isPlain = true → {s s' : Lowering} → {e : Expr} →
    (lowerWith n owner sugar r).run s = (e, s') → LowersTo n s s' r e
  | .terminal t, _, s, s', e, h => by
    obtain ⟨symbol, s₁, run, h⟩ := run_bind_eq_iff.1 h
    obtain ⟨rfl, rfl⟩ := run_pure_eq_iff.1 h
    obtain ⟨steps, found⟩ := terminal_run run
    refine ⟨steps, fun _ => ⟨by rw [Naming.lowered, found]; rfl, fun leaf hl => ?_⟩⟩
    obtain rfl := List.mem_singleton.1 hl
    simp only [Naming.Placed]
    rw [found]
    rfl
  | .token content immediate, _, s, s', e, h => by
    obtain ⟨closed, s₁, hclosed, h⟩ := run_bind_eq_iff.1 h
    obtain ⟨rfl, rfl⟩ := tokenContent_run hclosed
    obtain ⟨symbol, s₂, run, h⟩ := run_bind_eq_iff.1 h
    obtain ⟨rfl, rfl⟩ := run_pure_eq_iff.1 h
    obtain ⟨rfl, found⟩ := internAnonymous_run run
    refine ⟨.single (.token content immediate owner), fun none => ⟨?_, fun leaf hl => ?_⟩⟩
    · rw [Naming.lowered, Naming.symbolIn, Naming.innerContent, found]
      rfl
    · obtain rfl := List.mem_singleton.1 hl
      refine ⟨?_, owner, (List.append_eq_nil_iff.1 none).2⟩
      rw [Naming.symbolIn, Naming.innerContent, found]
      rfl
  | .symbol name, _, s, s', e, h => by
    obtain ⟨symbol, s₁, run, h⟩ := run_bind_eq_iff.1 h
    obtain ⟨steps, rfl, placed⟩ := resolve_run run
    have result : e = ((n.symbolIn s₁.lexicon (.symbol name)).map Expr.symbol).getD .blank
        ∧ s₁ = s' := by
      rw [Naming.symbolIn]
      split at h <;> rename_i found
      · obtain ⟨rfl, rfl⟩ := run_pure_eq_iff.1 h
        exact ⟨by rw [found]; rfl, rfl⟩
      · obtain ⟨rfl, rfl⟩ := run_pure_eq_iff.1 h
        exact ⟨by rw [found]; rfl, rfl⟩
    obtain ⟨rfl, rfl⟩ := result
    refine ⟨steps, fun _ => ⟨rfl, fun leaf hl => ?_⟩⟩
    obtain rfl := List.mem_singleton.1 hl
    exact placed
  | .seq members, plain, s, s', e, h => by
    rw [lowerWith, bind_pure_comp] at h
    obtain ⟨parts, run, rfl⟩ := run_map_eq_iff.1 h
    obtain ⟨steps, right⟩ := lowerAllWith_run members plain run
    refine ⟨steps, fun none => ?_⟩
    obtain ⟨rfl, placed⟩ := right none
    exact ⟨rfl, placed⟩
  | .choice members, plain, s, s', e, h => by
    rw [lowerWith, bind_pure_comp] at h
    obtain ⟨parts, run, rfl⟩ := run_map_eq_iff.1 h
    obtain ⟨steps, right⟩ := lowerAllWith_run members plain run
    refine ⟨steps, fun none => ?_⟩
    obtain ⟨rfl, placed⟩ := right none
    exact ⟨rfl, placed⟩
  | .repeated _ .oneOrMore, plain, _, _, _, _ | .optional _, plain, _, _, _, _ =>
    absurd plain (by simp [Rule.isPlain])
  | .repeated content .zeroOrMore, plain, s, s', e, h | .prec _ _ content, plain, s, s', e, h
  | .aliased content _ _, plain, s, s', e, h | .field _ content, plain, s, s', e, h => by
    rw [lowerWith, bind_pure_comp] at h
    obtain ⟨part, run, rfl⟩ := run_map_eq_iff.1 h
    obtain ⟨steps, right⟩ := lowerWith_run content plain run
    refine ⟨steps, fun none => ?_⟩
    obtain ⟨rfl, placed⟩ := right none
    exact ⟨rfl, placed⟩

theorem lowerAllWith_run {owner : String} {sugar : Rule → StateM Lowering Expr} :
    (rules : List Rule) → Rule.arePlain rules = true → {s s' : Lowering} → {es : List Expr} →
    (lowerAllWith n owner sugar rules).run s = (es, s') →
    Steps n s s' ∧ (s'.reports = [] → es = n.loweredAll s'.lexicon rules
      ∧ ∀ leaf ∈ Rule.leavesAll rules, n.Placed s'.lexicon leaf)
  | [], _, s, s', es, h => by
    obtain ⟨rfl, rfl⟩ := run_pure_eq_iff.1 h
    exact ⟨.refl, fun _ => ⟨rfl, by simp [Rule.leavesAll]⟩⟩
  | r :: rs, plain, s, s'', es, h => by
    simp only [Rule.arePlain, Bool.and_eq_true] at plain
    obtain ⟨first, s', hfirst, h⟩ := run_bind_eq_iff.1 h
    obtain ⟨rest, _, hrest, h⟩ := run_bind_eq_iff.1 h
    obtain ⟨rfl, rfl⟩ := run_pure_eq_iff.1 h
    obtain ⟨steps, right⟩ := lowerWith_run r plain.1 hfirst
    obtain ⟨stepsRest, rightRest⟩ := lowerAllWith_run rs plain.2 hrest
    refine ⟨steps.trans stepsRest, fun none => ?_⟩
    obtain ⟨rfl, placed⟩ := right (stepsRest.silent none)
    obtain ⟨rfl, placedRest⟩ := rightRest none
    refine ⟨by rw [Naming.loweredAll, lowered_of_grown stepsRest.entries r placed], ?_⟩
    intro leaf hl
    simp only [Rule.leavesAll, List.mem_append] at hl
    rcases hl with hl | hl
    · exact placed_of_grown stepsRest.entries (placed leaf hl)
    · exact placedRest leaf hl

end

theorem lower_run {owner : String} {r : Rule} (plain : r.isPlain = true) {e : Expr}
    (h : (lower n owner r).run s = (e, s')) : LowersTo n s s' r e :=
  lowerWith_run r plain h

end Productions.Lowering
