import Productions.Proofs.Inlining.PlainSubstitution
import Productions.Proofs.Levels
import Productions.Proofs.Precedence.Grouping
import Productions.Proofs.Recompilation.Converse
import Productions.Proofs.Symbols.Shapes

/-! Operator rules. A rule that is a choice of binary operators and operands is always kept as a
variable, whose alternatives are those of the rule, and by its table every sequence of operands and
operators is grouped. -/
namespace Productions

def Operator.map {α β : Type} (f : α → β) (o : Operator α) : Operator β :=
  ⟨f o.token, o.level, o.leftward⟩

def Operator.inRule (name : String) (o : Operator Rule) : Rule :=
  .prec (.integer o.level) o.assoc (.seq [.symbol name, o.token, .symbol name])

namespace Grammar

variable (g : Grammar)

inductive IsToken : Rule → Prop where
  | terminal (t) : IsToken (.terminal t)
  | token (content immediate) : IsToken (.token content immediate)
  | rule {name} (kind : g.table.kind? name = some .token) : IsToken (.symbol name)
  | external {name} (outside : g.get? name = none) : IsToken (.symbol name)

/-- A rule that is a choice of binary operators, at least one, and operands. -/
structure IsOperatorRule (name : String) (alternatives : List Rule) : Prop where
  rule : ∃ d, g.get? name = some d ∧ d.body = .choice alternatives
  recursive : ∃ o : Operator Rule, o.inRule name ∈ alternatives
  each : ∀ r ∈ alternatives,
    (∃ o : Operator Rule, g.IsToken o.token ∧ r = o.inRule name) ∨ g.IsToken r

end Grammar

/-- Members that are their only part are what a flattened list consists of. -/
theorem OrderedSet.mem_ofList_parts {α : Type} [DecidableEq α] {l : List α} {parts : α → List α}
    (whole : ∀ a ∈ l, parts a = [a]) {a : α} : a ∈ (ofList (l.flatMap parts)).toList ↔ a ∈ l := by
  have same : l.flatMap parts = l := (List.flatMap_congr whole).trans (by simp)
  rw [mem_toList, mem_ofList, same]

namespace Expr

theorem mem_alternatives_makeChoice {es : List Expr} {e : Expr}
    (flat : ∀ e ∈ es, e.alternatives = [e]) : e ∈ (makeChoice es).alternatives ↔ e ∈ es := by
  have same (e : Expr) : e ∈ (OrderedSet.ofList (es.flatMap choiceParts)).toList ↔ e ∈ es :=
    OrderedSet.mem_ofList_parts flat
  rw [← same]
  unfold makeChoice
  split
  · rename_i single one
    rw [flat single ((same single).1 (one ▸ List.mem_singleton_self single)), one]
  · rfl

theorem alternatives_resolveLevels (levels : Levels) (e : Expr) :
    (e.resolveLevels levels).alternatives = e.alternatives.map (resolveLevels levels) := by
  cases e with
  | choice es => exact resolveLevelsAll_eq_map es
  | _ => rfl

end Expr

namespace Naming

variable {n : Naming} {L : Lexicon}

theorem lowered_leaf {leaf : Rule} {s : Symbol} (symbol : n.symbolIn L leaf = some s) :
    n.lowered L leaf = .symbol s := by
  cases leaf with
  | terminal | token | symbol => rw [lowered, symbol]; rfl
  | _ => cases symbol

/-- The alternatives of a lowered choice are its alternatives lowered. -/
theorem mem_alternatives_lowered {rules : List Rule} {e : Expr}
    (flat : ∀ r ∈ rules, r.choiceParts = [r])
    (single : ∀ r ∈ rules, (n.lowered L r).alternatives = [n.lowered L r]) :
    e ∈ (n.lowered L (Rule.makeChoice rules)).alternatives ↔ ∃ r ∈ rules, n.lowered L r = e := by
  have same (r : Rule) :
      r ∈ (OrderedSet.ofList (rules.flatMap Rule.choiceParts)).toList ↔ r ∈ rules :=
    OrderedSet.mem_ofList_parts flat
  simp only [← same]
  unfold Rule.makeChoice
  split
  · rename_i only one
    have mem : only ∈ rules := (same only).1 (one ▸ List.mem_singleton_self only)
    rw [single only mem, one]
    simp [eq_comm]
  · rw [lowered, loweredAll_eq_map, Expr.mem_alternatives_makeChoice, List.mem_map]
    intro e mem
    obtain ⟨r, inside, rfl⟩ := List.mem_map.1 mem
    exact single r ((same r).1 inside)

end Naming

namespace Grammar

variable {g : Grammar} {name : String}

def written (g : Grammar) (r : Rule) : Rule :=
  r.unfolded g.table.isInlined (Inlining.ruleIn g.expandedRules)

theorem written_symbol (visible : g.table.isInlined name = false) :
    g.written (.symbol name) = .symbol name := by
  rw [written, Rule.unfolded, Rule.unfoldNames, visible]
  rfl

theorem written_seq (members : List Rule) :
    g.written (.seq members) = .makeSeq (members.map g.written) :=
  Rule.unfolded_eq_makeSeq (.seq members)

theorem written_choice (members : List Rule) :
    g.written (.choice members) = .makeChoice (members.map g.written) :=
  Rule.unfolded_eq_makeChoice (.choice members)

theorem written_prec (value : Precedence) (assoc : Assoc) (content : Rule) :
    g.written (.prec value assoc content) = .prec value assoc (g.written content) := rfl

theorem IsToken.isLeaf_written {r : Rule} (h : g.IsToken r) : (g.written r).IsLeaf := by
  cases h with
  | terminal => trivial
  | token content immediate => exact Rule.isLeaf_makeToken immediate _
  | rule kind =>
    rw [written_symbol (by rw [SymbolTable.isInlined, kind]; rfl)]
    trivial
  | external outside =>
    have none := (Symbols.get?_eq_none_iff g _).2 outside
    rw [written_symbol (by rw [SymbolTable.isInlined, SymbolTable.kind?, none]; rfl)]
    trivial

end Grammar

theorem Rule.IsLeaf.seqParts_eq {r : Rule} (h : r.IsLeaf) : r.seqParts = [r] := by
  cases r with
  | terminal | token | symbol => rfl
  | _ => exact h.elim

theorem Rule.IsLeaf.choiceParts_eq {r : Rule} (h : r.IsLeaf) : r.choiceParts = [r] := by
  cases r with
  | terminal | token | symbol => rfl
  | _ => exact h.elim

namespace Operator

variable {g : Grammar} {name : String} {n : Naming} {L : Lexicon}

/-- Writing out hidden names reaches the token of an operator only. -/
theorem written_inRule {o : Operator Rule} (visible : g.table.isInlined name = false)
    (token : g.IsToken o.token) :
    g.written (o.inRule name) = (o.map g.written).inRule name := by
  have parts : [.symbol name, g.written o.token, .symbol name].flatMap Rule.seqParts
      = [.symbol name, g.written o.token, .symbol name] := by
    rw [List.flatMap_cons, List.flatMap_cons, token.isLeaf_written.seqParts_eq]
    rfl
  rw [inRule, Grammar.written_prec, Grammar.written_seq, List.map_cons, List.map_cons,
    List.map_cons, List.map_nil, Grammar.written_symbol visible, Rule.makeSeq, parts]
  rfl

/-- An operator is lowered with the symbol of its token. -/
theorem lowered_inRule {o : Operator Rule} {i : Nat} {s : Symbol}
    (self : n.symbolIn L (.symbol name) = some (.rule i)) (token : n.symbolIn L o.token = some s) :
    n.lowered L (o.inRule name) = (o.map fun _ => s).inBody i := by
  simp only [inRule, Naming.lowered, Naming.loweredAll, self, Naming.lowered_leaf token]
  rfl

theorem inBody_injective {i : Nat} {o o' : Operator Symbol} (same : o.inBody i = o'.inBody i) :
    o = o' :=
  Option.some.inj ((Expr.operator?_eq_some_iff.2 rfl).symm.trans
    (Expr.operator?_eq_some_iff.2 same))

end Operator

namespace Grammar.IsOperatorRule

open NormalForm

variable {g : Grammar} {start name : String} {alternatives : List Rule}

theorem isToken (h : g.IsOperatorRule name alternatives) {o : Operator Rule}
    (mem : o.inRule name ∈ alternatives) : g.IsToken o.token := by
  rcases h.each _ mem with ⟨o', token, same⟩ | token
  · simp only [Operator.inRule, Rule.prec.injEq, Rule.seq.injEq, List.cons.injEq] at same
    rw [same.2.2.2.1]
    exact token
  · cases token

/-- An operator rule has an entry in the table of symbols, which is not a token. -/
theorem exists_entry (h : g.IsOperatorRule name alternatives) : ∃ info,
    g.table.get? name = some info ∧ info.body = .choice alternatives ∧ info.kind ≠ .token := by
  obtain ⟨d, rule, body⟩ := h.rule
  obtain ⟨info, get⟩ : ∃ info, g.table.get? name = some info := by
    refine Option.ne_none_iff_exists'.1 fun none => ?_
    rw [(Symbols.get?_eq_none_iff g name).1 none] at rule
    cases rule
  obtain ⟨d', rule', -, describes⟩ := Symbols.describes_of_get? get
  obtain rfl := Option.some.inj (rule.symm.trans rule')
  refine ⟨info, get, describes.body.trans body, fun token => ?_⟩
  have shaped := describes.token.1 token
  rw [isTokenRule, body, Bool.and_eq_true] at shaped
  cases shaped.2

/-- An operator rule refers to itself, so it is not written out. -/
theorem not_isInlined (h : g.IsOperatorRule name alternatives) (clean : NormalForm.Clean g start) :
    g.table.isInlined name = false := by
  rw [← Bool.not_eq_true]
  intro hidden
  obtain ⟨info, get, body, -⟩ := h.exists_entry
  obtain ⟨o, mem⟩ := h.recursive
  have inside : name ∈ info.body.occurrences := by
    rw [body]
    refine Rule.mem_occurrencesAll.2 ⟨_, mem, ?_⟩
    simp [Operator.inRule, Rule.occurrences, Rule.occurrencesAll]
  exact acyclic_of_quiet (Symbols.keyed_resolve g) (quiet_extrasRun clean.normal) name
    (.single ⟨info, get, (Rule.mem_occurrences_canonicalize _).2 inside, hidden⟩)

/-- An operator rule becomes a variable. -/
theorem exists_kept (h : g.IsOperatorRule name alternatives) (clean : NormalForm.Clean g start) :
    ∃ info i, g.table.get? name = some info ∧ info.body = .choice alternatives
      ∧ info.kind ≠ .token ∧ (keptRules g.table start)[i]? = some info
      ∧ (g.naming start).vars.get? name = some i := by
  have keyed := Symbols.keyed_resolve g
  obtain ⟨info, get, body, unshaped⟩ := h.exists_entry
  have kept : isKept info.kind = true := by
    have shown : info.kind ≠ .hidden := fun hidden => by
      have visible := h.not_isInlined clean
      rw [isInlined_iff.2 ⟨info, get, hidden⟩] at visible
      cases visible
    cases kind : info.kind with
    | nonterminal | lexical | supertype => rfl
    | token => exact absurd kind unshaped
    | hidden => exact absurd kind shown
  obtain ⟨i, place⟩ : ∃ i, (g.naming start).vars.get? name = some i :=
    exists_of_isKept keyed get kept
  obtain ⟨info', entry, own⟩ := (get?_vars keyed name i).1 place
  have get' := get?_of_mem_keptRules keyed (List.mem_of_getElem? entry)
  rw [own] at get'
  obtain rfl := Option.some.inj (get.symm.trans get')
  exact ⟨info, i, get, body, unshaped, entry, place⟩

theorem bodyOf_eq (h : g.IsOperatorRule name alternatives) (clean : NormalForm.Clean g start) :
    (g.naming start).bodyOf name = .makeChoice (alternatives.map g.written) := by
  obtain ⟨info, get, body, -⟩ := h.exists_entry
  obtain ⟨inlined, -, bodyOf, found⟩ := exists_bodyOf clean get
  rw [bodyOf, found.rule, Rule.canonicalize_unfoldNames_canonicalize, body,
    ← Grammar.written_choice]
  rfl

/-- Each token has a symbol, and with these operators and operands are lowered. -/
theorem exists_symbols (h : g.IsOperatorRule name alternatives) (clean : NormalForm.Clean g start)
    {i : Nat} (self : (g.naming start).vars.get? name = some i) : ∃ symbol : Rule → Symbol,
      (∀ o : Operator Rule, o.inRule name ∈ alternatives →
        (g.naming start).lowered (g.lexicon start) (g.written (o.inRule name))
          = (o.map symbol).inBody i)
      ∧ ∀ r ∈ alternatives, g.IsToken r →
        (g.naming start).lowered (g.lexicon start) (g.written r) = .symbol (symbol r) := by
  obtain ⟨info, i', get, -, unshaped, place, self'⟩ := h.exists_kept clean
  obtain rfl := Option.some.inj (self'.symm.trans self)
  have placed := placed_of_kept clean (List.mem_of_getElem? place) unshaped
  rw [(Symbols.keyed_resolve g).name_eq get] at placed
  let symbol (r : Rule) : Symbol :=
    ((g.naming start).symbolIn (g.lexicon start) (g.written r)).getD (.rule i')
  -- every leaf of the body has a symbol
  have found {r leaf : Rule} (mem : r ∈ alternatives)
      (inside : g.written leaf ∈ (g.written r).leaves) :
      (g.naming start).symbolIn (g.lexicon start) (g.written leaf) = some (symbol leaf) := by
    have hl : g.written leaf ∈ ((g.naming start).bodyOf name).leaves := by
      rw [h.bodyOf_eq clean]
      exact Rule.mem_leaves_makeChoice.2 ⟨_, List.mem_map_of_mem mem, inside⟩
    rcases leaf_cases clean get placed hl with ⟨_, _, -, -, -, found⟩ | ⟨_, found, -⟩
    all_goals rw [found]; simp [symbol, found]
  refine ⟨symbol, fun o mem => ?_, fun r mem token => ?_⟩
  · have token := h.isToken mem
    have named : (g.naming start).symbolIn (g.lexicon start) (.symbol name) = some (.rule i') := by
      rw [Naming.symbolIn, Naming.nameIn, self]
    have written := Operator.written_inRule (h.not_isInlined clean) token
    have inside : g.written o.token ∈ (g.written (o.inRule name)).leaves := by
      rw [written]
      simp [Operator.inRule, Operator.map, Rule.leaves, Rule.leavesAll,
        token.isLeaf_written.leaves_eq]
    rw [written]
    exact Operator.lowered_inRule named (found mem inside)
  · exact Naming.lowered_leaf (found mem (by simp [token.isLeaf_written.leaves_eq]))

/-- The alternatives of the variable are those of the rule: its operators with the symbols of their
tokens, and the symbols of its operands. -/
theorem exists_alternatives (h : g.IsOperatorRule name alternatives)
    (clean : NormalForm.Clean g start) : ∃ info i symbol,
      (keptRules g.table start)[i]? = some info ∧ info.name = name ∧
      ∀ e, e ∈ ((g.naming start).bodyIn (g.lexicon start) info).alternatives
        ↔ (∃ o : Operator Rule, o.inRule name ∈ alternatives ∧ (o.map symbol).inBody i = e)
          ∨ ∃ r ∈ alternatives, g.IsToken r ∧ .symbol (symbol r) = e := by
  obtain ⟨info, i, get, -, unshaped, place, self⟩ := h.exists_kept clean
  obtain ⟨symbol, operator, token⟩ := h.exists_symbols clean self
  have own : info.name = name := (Symbols.keyed_resolve g).name_eq get
  refine ⟨info, i, symbol, place, own, fun e => ?_⟩
  rw [Naming.bodyIn, if_neg unshaped, own, h.bodyOf_eq clean, Naming.mem_alternatives_lowered]
  · simp only [List.mem_map, exists_exists_and_eq_and]
    constructor
    · rintro ⟨r, mem, rfl⟩
      rcases h.each r mem with ⟨o, -, rfl⟩ | isToken
      · exact .inl ⟨o, mem, (operator o mem).symm⟩
      · exact .inr ⟨r, mem, isToken, (token r mem isToken).symm⟩
    · rintro (⟨o, mem, rfl⟩ | ⟨r, mem, isToken, rfl⟩)
      · exact ⟨_, mem, operator o mem⟩
      · exact ⟨r, mem, token r mem isToken⟩
  · rw [List.forall_mem_map]
    intro r mem
    rcases h.each r mem with ⟨o, isToken, rfl⟩ | isToken
    · rw [Operator.written_inRule (h.not_isInlined clean) isToken]
      rfl
    · exact isToken.isLeaf_written.choiceParts_eq
  · rw [List.forall_mem_map]
    intro r mem
    rcases h.each r mem with ⟨o, -, rfl⟩ | isToken
    · rw [operator o mem]
      rfl
    · rw [token r mem isToken]
      rfl

end Grammar.IsOperatorRule

/-- A rule is a variable with the operators of the rule, one symbol standing for each token, and
its table groups every sequence of operands and operators. -/
def Disambiguated.GroupsRule (d : Disambiguated) (name : String) (alternatives : List Rule) :
    Prop :=
  ∃ (i : Nat) (v : Variable) (symbol : Rule → Symbol), d.normal.vars[i]? = some v ∧ v.name = name
    ∧ (∀ o : Operator Symbol, o.inBody i ∈ v.body.alternatives
      ↔ ∃ o' : Operator Rule, o'.inRule name ∈ alternatives ∧ o'.map symbol = o)
    ∧ GroupsOperators d.tables i v.body

namespace Grammar

open NormalForm

variable {g : Grammar} {settings : Settings}

theorem IsOperatorRule.groupsRule {d : Disambiguated} (settled : g.disambiguated settings = .ok d)
    {name : String} {alternatives : List Rule} (h : g.IsOperatorRule name alternatives) :
    d.GroupsRule name alternatives := by
  obtain ⟨start, settles, rfl⟩ := disambiguated_eq_ok settled
  obtain ⟨info, i, symbol, place, own, each⟩ := h.exists_alternatives settles.clean
  have vars : (g.normalForm start).vars = _ :=
    (partsIn_partsRun (Symbols.keyed_resolve g) settles.clean.normal).vars
  have lookup : (g.settled settings start).vars[i]? = some
      { (g.naming start).variableIn (g.lexicon start) (inlinedRules g.table) info with
        body := ((g.naming start).bodyIn (g.lexicon start) info).resolveLevels
          (g.levels settings) } := by
    change ((g.normalForm start).vars.map _)[i]? = _
    rw [List.getElem?_map, vars, List.getElem?_map, place]
    rfl
  refine ⟨i, _, symbol, lookup, own, fun o => ?_, groupsOperators_tables lookup⟩
  rw [Expr.alternatives_resolveLevels, List.mem_map]
  constructor
  · rintro ⟨e, mem, same⟩
    rcases (each e).1 mem with ⟨o', known, rfl⟩ | ⟨r, -, -, rfl⟩
    · exact ⟨o', known, Operator.inBody_injective same⟩
    · cases same
  · rintro ⟨o', known, rfl⟩
    exact ⟨_, (each _).2 (.inl ⟨o', known, rfl⟩), rfl⟩

/-- The tables of a normal form group the operators of every variable. A rule that is a choice of
operators and operands is such a variable once precedences are settled, and a compiled grammar has
the same tables. -/
theorem operators_grouped (g : Grammar) (settings : Settings) :
    (∀ (n : NormalForm) (i : Nat) (v : Variable), n.vars[i]? = some v →
      GroupsOperators (Disambiguation.tables n) i v.body)
    ∧ (∀ d, g.disambiguated settings = .ok d → ∀ name alternatives,
      g.IsOperatorRule name alternatives → d.GroupsRule name alternatives)
    ∧ ∀ c, g.compile settings = .ok c → ∀ (i : Nat) (v : Variable), c.vars[i]? = some v →
      GroupsOperators c.precedence i v.body := by
  refine ⟨fun n i v => groupsOperators_tables, fun d settled name alternatives rule =>
    rule.groupsRule settled, fun c compiled i v lookup => ?_⟩
  obtain ⟨start, h⟩ := compile_eq_ok compiled
  rw [h.result] at lookup ⊢
  obtain ⟨v, before, rfl⟩ := Option.map_eq_some_iff.1 (List.getElem?_map.symm.trans lookup)
  exact groupsOperators_tables (v := v) before

/-- Sums and powers on one level that group to different sides, between assignments and products on
the outermost levels. -/
def mixedOperators : List (Operator Rule) := [
  ⟨.terminal (.literal "+"), 1, true⟩,
  ⟨.terminal (.literal "^"), 1, false⟩,
  ⟨.terminal (.literal "*"), 2147483647, true⟩,
  ⟨.terminal (.literal "="), -2147483648, false⟩]

def mixedAlternatives : List Rule :=
  mixedOperators.map (Operator.inRule "expr") ++ [.symbol "number"]

def mixedExpressions : Grammar where
  name := "expressions"
  rules := [
    ⟨"expr", .choice mixedAlternatives, false⟩,
    ⟨"number", .terminal (.literal "n"), false⟩]
  extras := []
  precedences := []
  conflicts := []
  externals := []
  inlined := []
  supertypes := []
  word := none

def mixedRest : List (Symbol × Symbol) :=
  [.lexical 3, .lexical 0, .lexical 1, .lexical 2].map fun operator => (operator, .lexical 4)

def mixedTree : Grouping :=
  let operand := Grouping.operand (.lexical 4)
  .binary operand ⟨.lexical 3, -2147483648, false⟩
    (.binary (.binary operand ⟨.lexical 0, 1, true⟩ operand) ⟨.lexical 1, 1, false⟩
      (.binary operand ⟨.lexical 2, 2147483647, true⟩ operand))

theorem isOperatorRule_mixed : mixedExpressions.IsOperatorRule "expr" mixedAlternatives where
  rule := ⟨_, rfl, rfl⟩
  recursive := ⟨_, List.mem_append_left _ (List.mem_map_of_mem List.mem_cons_self)⟩
  each := by
    intro r mem
    rcases List.mem_append.1 mem with mem | mem
    · obtain ⟨o, known, rfl⟩ := List.mem_map.1 mem
      refine .inl ⟨o, ?_, rfl⟩
      simp only [mixedOperators, List.mem_cons, List.not_mem_nil, or_false] at known
      rcases known with rfl | rfl | rfl | rfl <;> exact .terminal _
    · rw [List.mem_singleton.1 mem]
      exact .inr (.rule (by cbv))

theorem operators_grouped_mixed : ∃ d c, mixedExpressions.disambiguated .default = .ok d
    ∧ mixedExpressions.compile .default = .ok c
    ∧ d.GroupsRule "expr" mixedAlternatives
    ∧ (∃ v, c.vars[0]? = some v ∧ GroupsOperators c.precedence 0 v.body)
    ∧ (d.normal.vars.head?.bind fun v => Grouping.group (Disambiguation.tieIn d.tables 0) 0
        v.body.alternatives (.lexical 4) mixedRest) = some mixedTree := by
  obtain ⟨-, rules, compiles⟩ := operators_grouped mixedExpressions .default
  obtain ⟨d, settled, grouped⟩ : ∃ d, mixedExpressions.disambiguated .default = .ok d
      ∧ (d.normal.vars.head?.bind fun v => Grouping.group (Disambiguation.tieIn d.tables 0) 0
        v.body.alternatives (.lexical 4) mixedRest) = some mixedTree :=
    exists_ok_of_toOption_map (by cbv)
  obtain ⟨c, compiled, some⟩ : ∃ c, mixedExpressions.compile .default = .ok c
      ∧ c.vars[0]?.isSome = true := exists_ok_of_toOption_map (by cbv)
  obtain ⟨v, lookup⟩ := Option.isSome_iff_exists.1 some
  exact ⟨d, c, settled, compiled, rules d settled _ _ isOperatorRule_mixed,
    ⟨v, lookup, compiles c compiled 0 v lookup⟩, grouped⟩

end Grammar

end Productions
