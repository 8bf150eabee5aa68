import Productions.Proofs.Recompilation.Converse

/-! When the written grammar compiles back. -/
namespace Productions

namespace CompiledGrammar

/-- The grammar written for a compiled grammar compiles back to it exactly under the conditions of
`Restorable`. -/
theorem recompiles_iff {g : Grammar} {settings : Settings} {c : CompiledGrammar}
    (compiled : g.compile settings = .ok c) :
    (∃ d, c.toGrammar.compile .default = .ok d ∧ c.Restores d) ↔ c.Restorable := by
  obtain ⟨start, h⟩ := Grammar.compile_eq_ok compiled
  refine ⟨?_, restores_of_restorable h⟩
  rintro ⟨d, again, same⟩
  obtain ⟨first, h'⟩ := Grammar.compile_eq_ok again
  -- Both compilations have the same start rule, since the first rule written is that of the start.
  obtain rfl : first = c.start :=
    Except.ok.inj (h'.first.symm.trans (startRule_toGrammar h.arranged))
  exact restorable_of_restores h.arranged h' same

/-- Sums of operands, where an operand is hidden. -/
def hiddenOperands : Grammar where
  name := "sums"
  rules := [
    ⟨"sum", .choice [.prec (.integer 1) .left (.seq [.symbol "sum", .terminal (.literal "+"),
      .symbol "sum"]), .symbol "operand"], false⟩,
    ⟨"operand", .terminal (.literal "n"), true⟩]
  extras := [.terminal (.literal " ")]
  precedences := []
  conflicts := []
  externals := []
  inlined := []
  supertypes := []
  word := none

def sumBody : Expr :=
  .choice [.prec (.integer 1) .left
    (.seq [.symbol (.rule 0), .symbol (.lexical 0), .symbol (.rule 0)]), .symbol (.lexical 1)]

def compiledSums : CompiledGrammar where
  name := "sums"
  start := "sum"
  vars := [⟨"sum", .nonterminal, sumBody, ["operand"], ∅⟩]
  lexicon := [⟨"+", false, .terminal (.literal "+"), false⟩,
    ⟨"n", false, .terminal (.literal "n"), false⟩, ⟨" ", false, .terminal (.literal " "), false⟩]
  externals := []
  extras := [.lexical 2]
  word := none
  conflicts := []
  supertypes := ∅
  levels := ∅
  precedence := [⟨"sum", 0, [⟨⟨some 1, .left, none⟩, true, true, true⟩,
    ⟨⟨none, .none, none⟩, false, false, false⟩], [⟨0, 0, .preferReduce⟩]⟩]
  aliases := ∅
  warnings := []

theorem compile_hiddenOperands : hiddenOperands.compile .default = .ok compiledSums := by cbv

theorem restorable_compiledSums : compiledSums.Restorable where
  names := by cbv
  kinds v mem := by
    obtain rfl := List.mem_singleton.1 mem
    cbv
  bodies v mem := by
    obtain rfl := List.mem_singleton.1 mem
    have sum : (Expr.seq [.symbol (.rule 0), .symbol (.lexical 0), .symbol (.rule 0)]).Canonical :=
      .seq (by simp [Expr.Canonical.symbol]) (by simp [Expr.IsSeq]) (by simp)
    exact .choice (by simp [sum.prec, Expr.Canonical.symbol]) (by simp [Expr.IsChoice]) (by simp)
      (by simp)
  contents entry mem := by
    simp only [compiledSums, List.mem_cons, List.not_mem_nil, or_false] at mem
    rcases mem with rfl | rfl | rfl
    all_goals exact .terminal _
  distinct := by simp [Lexicon.Distinct, LexicalEntry.Alike, compiledSums]
  used id entry found unnamed := by
    have bound : id < 3 := (List.getElem?_eq_some_iff.1 found).1
    have cases : id = 0 ∨ id = 1 ∨ id = 2 := by omega
    rcases cases with rfl | rfl | rfl
    · exact .inl ⟨_, List.mem_singleton_self _, by simp [sumBody, Expr.symbols, Expr.symbolsAll]⟩
    · exact .inl ⟨_, List.mem_singleton_self _, by simp [sumBody, Expr.symbols, Expr.symbolsAll]⟩
    · exact .inr (by simp [compiledSums])
  apart entry _ text _ _ _ := by simp [compiledSums]
  covered d mem unresolved := by
    obtain rfl := List.mem_singleton.1 mem
    exact absurd (by decide) unresolved

theorem recompiles_iff_compiledSums :
    ∃ d, compiledSums.toGrammar.compile .default = .ok d ∧ compiledSums.Restores d :=
  (recompiles_iff compile_hiddenOperands).2 restorable_compiledSums

def hiddenLetters : Grammar where
  name := "aliases"
  rules := [⟨"word", .symbol "letters", false⟩, ⟨"letters", .terminal (.literal "x"), true⟩]
  extras := []
  precedences := []
  conflicts := []
  externals := []
  inlined := []
  supertypes := []
  word := none

/-- Once the letters are expanded away, the word is written as a token rule, and comes back as one
with an entry of its own. -/
theorem exists_changed_word : ∃ c d, hiddenLetters.compile .default = .ok c
    ∧ c.toGrammar.compile .default = .ok d
    ∧ c.vars.map Variable.kind = [.lexical] ∧ d.vars.map Variable.kind = [.token]
    ∧ ¬ c.Restores d := by
  have parts : (hiddenLetters.compile .default).toOption.map
      (fun c => (c.vars.map Variable.kind, (c.toGrammar.compile .default).toOption.map fun d =>
        d.vars.map Variable.kind)) = some ([.lexical], some [.token]) := by cbv
  cases compiled : hiddenLetters.compile .default with
  | error f => simp [compiled, Except.toOption] at parts
  | ok c =>
    simp only [compiled, Except.toOption, Option.map_some, Option.some.injEq, Prod.mk.injEq]
      at parts
    obtain ⟨kinds, again⟩ := parts
    cases recompiled : c.toGrammar.compile .default with
    | error f => simp [recompiled] at again
    | ok d =>
      simp only [recompiled, Option.map_some, Option.some.injEq] at again
      refine ⟨c, d, rfl, recompiled, kinds, again, fun restores => ?_⟩
      have same := congrArg (List.map fun s => s.2.1) restores.shapes
      rw [List.map_map, List.map_map] at same
      have kinds_eq : d.vars.map Variable.kind = c.vars.map Variable.kind := same
      rw [kinds, again] at kinds_eq
      cases kinds_eq

end CompiledGrammar

end Productions
