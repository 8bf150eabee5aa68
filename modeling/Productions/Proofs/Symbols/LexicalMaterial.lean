import Mathlib.Data.Set.Finite.Basic
import Productions.Proofs.Symbols.Kinds

/-! What lexical rules are built from. References are followed from a lexical rule into every rule
that is not shaped like a token. A reference is accepted for the declaration of an external token
even where a rule has the same name, and the rule is what it stands for later, so fields and
recursion are kept out exactly if all such rules on the way are lexical themselves. -/
namespace Productions

open Relation

namespace Grammar

variable (g : Grammar)

/-- A rule that is not shaped like a token refers to a name. -/
def Follows (a b : String) : Prop :=
  ∃ d, g.get? a = some d ∧ ¬ d.body.TokenShape ∧ b ∈ d.body.occurrences

/-- A rule shaped like a token, a rule that has no field and does not reach itself, or an external
token without a rule. -/
inductive IsSimple (name : String) : Prop where
  | token {d} (rule : g.get? name = some d) (shaped : d.body.TokenShape)
  | plain {d} (rule : g.get? name = some d) (fieldless : ¬ d.body.CarriesField)
      (apart : ¬ TransGen g.RefersTo name name)
  | external (missing : g.get? name = none) (declared : g.DeclaresExternal name)

/-- What makes a rule lexical, where it is told which rules are. -/
inductive LexicalGiven (lexical : String → Prop) (name : String) : Prop where
  | token {d} (rule : g.get? name = some d) (shaped : d.body.TokenShape)
  | plain {d} (rule : g.get? name = some d) (fieldless : ¬ d.body.CarriesField)
      (apart : ¬ TransGen g.RefersTo name name)
      (refs : ∀ ref ∈ d.body.occurrences, lexical ref ∨ g.DeclaresExternal ref)

variable {g} {name : String}

theorem Follows.refersTo {a b : String} (h : g.Follows a b) : g.RefersTo a b := by
  obtain ⟨d, rule, -, ref⟩ := h
  exact ⟨d, rule, ref⟩

theorem LexicalGiven.isSimple {p : String → Prop} (h : g.LexicalGiven p name) :
    g.IsSimple name := by
  cases h with
  | token rule shaped => exact .token rule shaped
  | plain rule fieldless apart _ => exact .plain rule fieldless apart

/-- The lexical rules are what makes rules lexical. -/
theorem isLexical_iff : g.IsLexical name ↔ g.LexicalGiven g.IsLexical name := by
  constructor
  · rintro (⟨rule, shaped⟩ | ⟨rule, fieldless, apart, refs⟩)
    · exact .token rule shaped
    · refine .plain rule fieldless apart fun ref mem => ?_
      by_cases declared : g.DeclaresExternal ref
      · exact .inr declared
      · exact .inl (refs ref mem declared)
  · rintro (⟨rule, shaped⟩ | ⟨rule, fieldless, apart, refs⟩)
    · exact .token rule shaped
    · exact .plain rule fieldless apart fun ref mem inner => (refs ref mem).resolve_right inner

theorem IsLexical.isSimple (h : g.IsLexical name) : g.IsSimple name := (isLexical_iff.1 h).isSimple

theorem IsSimple.not_follows_self (h : g.IsSimple name) : ¬ TransGen g.Follows name name := by
  intro cycle
  obtain ⟨_, ⟨d, found, unshaped, -⟩, -⟩ := TransGen.head'_iff.1 cycle
  cases h with
  | token rule shaped =>
    obtain rfl := Option.some.inj (rule.symm.trans found)
    exact unshaped shaped
  | plain _ _ apart => exact apart (TransGen.mono (fun _ _ => Follows.refersTo) _ _ cycle)
  | external missing _ =>
    rw [missing] at found
    cases found

theorem finite_rules (p : String → Prop) : Finite {n // p n ∧ g.IsRule n} := by
  have names : {n | p n ∧ g.IsRule n} ⊆ {n | n ∈ g.rules.map Definition.name} := by
    rintro n ⟨-, known⟩
    obtain ⟨d, found⟩ := Option.isSome_iff_exists.1 known
    exact List.mem_map.2 ⟨d, List.mem_of_find?_eq_some found, name_of_get? found⟩
  exact ((g.rules.map Definition.name).finite_toSet.subset names).to_subtype

/-- Following references through simple rules comes to an end. -/
theorem wellFounded_follows {p : String → Prop} (simple : ∀ b, p b → g.IsSimple b) :
    WellFounded fun b a : {n // p n ∧ g.IsRule n} => TransGen g.Follows a b := by
  have finite := finite_rules (g := g) p
  have irreflexive : Std.Irrefl fun b a : {n // p n ∧ g.IsRule n} => TransGen g.Follows a b :=
    ⟨fun a => (simple a a.2.1).not_follows_self⟩
  have transitive : IsTrans {n // p n ∧ g.IsRule n} fun b a => TransGen g.Follows a b :=
    ⟨fun _ _ _ below above => above.trans below⟩
  exact Finite.wellFounded_of_trans_of_irrefl _

/-- Where all names are simple that references lead to, with external tokens left out, all rules
among them are lexical. -/
theorem isLexical_of_simple {p : String → Prop} (simple : ∀ b, p b → g.IsSimple b)
    (closed : ∀ a b, p a → g.Follows a b → ¬ g.DeclaresExternal b → p b) {a : String}
    (inside : p a) (known : g.IsRule a) : g.IsLexical a := by
  -- rules that are not shaped like tokens are lexical after all that they lead to
  have step := (wellFounded_follows simple).induction
    (C := fun a : {n // p n ∧ g.IsRule n} => g.IsLexical a)
  refine step ⟨a, inside, known⟩ ?_
  rintro ⟨a, inside, known⟩ below
  cases simple a inside with
  | token rule shaped => exact .token rule shaped
  | external missing _ =>
    rw [IsRule, missing] at known
    cases known
  | @plain d rule fieldless apart =>
    by_cases shaped : d.body.TokenShape
    · exact .token rule shaped
    · apply IsLexical.plain rule fieldless apart
      intro ref mem inner
      have next : g.Follows a ref := ⟨d, rule, shaped, mem⟩
      have reached := closed a ref inside next inner
      have known' : g.IsRule ref := by
        cases simple ref reached with
        | token rule' _ | plain rule' _ _ => exact Option.isSome_of_eq_some rule'
        | external _ declared => exact absurd declared inner
      exact below ⟨ref, reached, known'⟩ (.single next)

/-- Where every rule that shares its name with an external token is lexical, references lead to
lexical rules and to external tokens without a rule. -/
theorem isLexical_of_follows (lexical : g.IsLexical name)
    (shared : ∀ b, ReflTransGen g.Follows name b → g.DeclaresExternal b → g.IsRule b →
      g.IsLexical b) {b : String} (path : ReflTransGen g.Follows name b) :
    g.IsLexical b ∨ g.get? b = none ∧ g.DeclaresExternal b := by
  -- along the path: what is reached is lexical, or has no rule and leads nowhere
  induction path with
  | refl => exact .inl lexical
  | @tail a b path step ih =>
    by_cases declared : g.DeclaresExternal b
    · cases found : g.get? b with
      | none => exact .inr ⟨rfl, declared⟩
      | some d => exact .inl (shared b (path.tail step) declared (Option.isSome_of_eq_some found))
    · obtain ⟨d, found, unshaped, ref⟩ := step
      rcases ih with before | ⟨missing, -⟩
      · cases before with
        | token rule shaped =>
          obtain rfl := Option.some.inj (rule.symm.trans found)
          exact absurd shaped unshaped
        | plain rule _ _ refs =>
          obtain rfl := Option.some.inj (rule.symm.trans found)
          exact .inl (refs b ref declared)
      · rw [missing] at found
        cases found

/-- A rule of the lexical kind leads to simple names only, exactly if every rule on the way that
shares its name with an external token is lexical. -/
theorem leads_to_simple_iff (lexical : (Symbols.resolve g).1.kind? name = some .lexical) :
    (∀ b, ReflTransGen g.Follows name b → g.IsSimple b)
      ↔ ∀ b, ReflTransGen g.Follows name b → g.DeclaresExternal b → g.IsRule b →
        g.IsLexical b := by
  constructor
  · intro simple b path _ known
    exact isLexical_of_simple simple (fun _ _ path step _ => path.tail step) path known
  · intro shared b path
    rcases isLexical_of_follows (isLexical_of_kind lexical) shared path with inner | ⟨missing, out⟩
    · exact inner.isSimple
    · exact .external missing out

/-- Numbers with a unit. Numbers are tokens here, and may come from a scanner as well. -/
def quantities : Grammar where
  name := "quantities"
  rules := [
    ⟨"quantity", .seq [.symbol "amount", .symbol "unit"], false⟩,
    ⟨"amount", .seq [.symbol "number", .terminal (.literal "."), .symbol "number"], false⟩,
    ⟨"number", .terminal (.literal "1"), false⟩]
  extras := []
  precedences := []
  conflicts := []
  externals := [.symbol "unit", .symbol "number"]
  inlined := []
  supertypes := []
  word := none

theorem leads_to_simple_quantities :
    (Symbols.resolve quantities).1.kind? "quantity" = some .lexical
      ∧ ∀ b, ReflTransGen quantities.Follows "quantity" b → quantities.IsSimple b := by
  have lexical : (Symbols.resolve quantities).1.kind? "quantity" = some .lexical := by cbv
  refine ⟨lexical, (leads_to_simple_iff lexical).2 fun b _ declared known => ?_⟩
  have named : b = "unit" ∨ b = "number" := by
    simpa [DeclaresExternal, quantities] using declared
  rcases named with rfl | rfl
  · cases known
  · exact .token rfl (.terminal _)

def fieldedSum : Grammar where
  name := "sums"
  rules := [
    ⟨"sum", .seq [.symbol "number", .terminal (.literal "+")], false⟩,
    ⟨"number", .field "digits" (.terminal (.literal "1")), false⟩]
  extras := []
  precedences := []
  conflicts := []
  externals := [.symbol "number"]
  inlined := []
  supertypes := []
  word := none

/-- A rule is of the lexical kind although it refers to a rule with a field, whose name is also that
of an external token. -/
theorem exists_lexical_with_field : (∃ r, fieldedSum.resolve .default = .ok r)
    ∧ (∃ c, fieldedSum.compile .default = .ok c)
    ∧ (Symbols.resolve fieldedSum).1.kind? "sum" = some .lexical
    ∧ ReflTransGen fieldedSum.Follows "sum" "number" ∧ ¬ fieldedSum.IsSimple "number" := by
  refine ⟨exists_ok_of_isOk (by cbv), exists_ok_of_isOk (by cbv), by cbv, .single ?_, ?_⟩
  · refine ⟨_, rfl, ?_, by simp [Rule.occurrences, Rule.occurrencesAll]⟩
    intro token
    cases token
  · intro simple
    cases simple with
    | token rule shaped =>
      obtain rfl := Option.some.inj rule
      cases shaped
    | plain rule fieldless _ =>
      obtain rfl := Option.some.inj rule
      exact fieldless ⟨_, _, .self⟩
    | external missing _ => cases missing

end Grammar

end Productions
