import Productions.Proofs.Lowering.Parts

/-! The lexical table that lowering leaves. A run enters the leaves of its rules one after the
other, and reports nothing where their references are in order. -/
namespace Productions

namespace Naming

variable (n : Naming)

def enterNamed (L : Lexicon) (name : String) : Lexicon :=
  (L.internNamed name (n.namedContent name) (n.tokenBody name).2).2

def enterName (L : Lexicon) (name : String) : Lexicon :=
  if n.vars.get? name = none ∧ n.table.kind? name = some .token then n.enterNamed L name else L

def enter (owner : String) (L : Lexicon) : Rule → Lexicon
  | .terminal t =>
    if (n.outside? t).isSome then L else (L.internAnonymous (.terminal t) false owner).2
  | .token content immediate => (L.internAnonymous (n.innerContent content) immediate owner).2
  | .symbol name => n.enterName L name
  | _ => L

def enterAll (owner : String) (L : Lexicon) (leaves : List Rule) : Lexicon :=
  leaves.foldl (n.enter owner) L

def Silent : Rule → Prop
  | .token content _ => ∀ owner, n.innerReports owner content = []
  | .symbol name => n.table.kind? name = some .token → n.namedReports name = []
  | _ => True

def Resolves : Rule → Prop
  | .terminal _ | .token _ _ => True
  | .symbol name => (n.vars.get? name).isSome ∨ n.table.kind? name = some .token
      ∨ n.table.kind? name = none ∧ (n.externalId? name true).isSome
  | _ => False

end Naming

namespace Lowering

/-- A run that changes the lexical table in a given way, and reports nothing under a condition. -/
structure Enters (s s' : Lowering) (change : Lexicon → Lexicon) (quiet : Prop) : Prop where
  lexicon : s'.lexicon = change s.lexicon
  reports : quiet → s'.reports = s.reports

variable {n : Naming} {s s' s'' : Lowering}

theorem Enters.refl (s : Lowering) (quiet : Prop) : Enters s s id quiet := ⟨rfl, fun _ => rfl⟩

theorem Enters.trans {change change' : Lexicon → Lexicon} {quiet quiet' : Prop}
    (h : Enters s s' change quiet) (h' : Enters s' s'' change' quiet') :
    Enters s s'' (change' ∘ change) (quiet ∧ quiet') where
  lexicon := by rw [h'.lexicon, h.lexicon, Function.comp]
  reports := fun ⟨first, rest⟩ => (h'.reports rest).trans (h.reports first)

theorem Enters.imp {change change' : Lexicon → Lexicon} {quiet quiet' : Prop}
    (h : Enters s s' change quiet) (same : change s.lexicon = change' s.lexicon)
    (less : quiet' → quiet) : Enters s s' change' quiet' :=
  ⟨h.lexicon.trans same, h.reports ∘ less⟩

theorem internAnonymous_enters {content : Rule} {immediate : Bool} {owner : String}
    {symbol : Symbol} (h : (internAnonymous content immediate owner).run s = (symbol, s')) :
    Enters s s' (fun L => (L.internAnonymous content immediate owner).2) True := by
  obtain ⟨rfl, -⟩ := internAnonymous_run h
  exact ⟨rfl, fun _ => rfl⟩

theorem namedToken_enters {name : String} {id : Nat}
    (h : (namedToken n name).run s = (id, s')) :
    Enters s s' (fun L => n.enterNamed L name) (n.namedReports name = []) := by
  obtain ⟨_, _, hget, h⟩ := run_bind_eq_iff.1 h
  obtain ⟨rfl, rfl⟩ := run_get_eq_iff.1 hget
  split at h <;> rename_i found
  · obtain ⟨rfl, rfl⟩ := run_pure_eq_iff.1 h
    refine ⟨?_, fun _ => rfl⟩
    rw [Naming.enterNamed, Lexicon.internNamed, found]
  · obtain ⟨content, s₁, hcontent, h⟩ := run_bind_eq_iff.1 h
    obtain ⟨rfl, rfl⟩ := tokenContent_run hcontent
    obtain ⟨_, _, hget, h⟩ := run_bind_eq_iff.1 h
    obtain ⟨rfl, rfl⟩ := run_get_eq_iff.1 hget
    obtain ⟨_, _, hset, h⟩ := run_bind_eq_iff.1 h
    obtain rfl := run_set_eq_iff.1 hset
    obtain ⟨rfl, rfl⟩ := run_pure_eq_iff.1 h
    refine ⟨rfl, fun quiet => ?_⟩
    rw [Naming.namedReports, Naming.tokenBody] at quiet
    dsimp only
    rw [quiet, List.append_nil]

theorem resolve_enters {name : String} {symbol : Option Symbol}
    (h : (resolve n name).run s = (symbol, s')) :
    Enters s s' (fun L => n.enterName L name) (n.Silent (.symbol name))
      ∧ (n.Resolves (.symbol name) → symbol.isSome) := by
  unfold resolve at h
  unfold Naming.Resolves Naming.Silent
  simp only [Naming.enterName]
  cases vars : n.vars.get? name with
  | some id =>
    rw [vars] at h
    obtain ⟨rfl, rfl⟩ := run_pure_eq_iff.1 h
    exact ⟨⟨by simp, fun _ => rfl⟩, fun _ => rfl⟩
  | none =>
    rw [vars] at h
    dsimp only at h
    split at h <;> rename_i kind
    · obtain ⟨id, s₁, run, h⟩ := run_bind_eq_iff.1 h
      obtain ⟨rfl, rfl⟩ := run_pure_eq_iff.1 h
      exact ⟨(namedToken_enters run).imp (by simp [kind]) fun quiet => quiet kind, fun _ => rfl⟩
    · rename_i other noToken
      obtain ⟨rfl, rfl⟩ := run_pure_eq_iff.1 h
      refine ⟨⟨?_, fun _ => rfl⟩, ?_⟩
      · rw [if_neg fun both => noToken (Option.some.inj (kind.symm.trans both.2))]
      · rintro (absent | token | ⟨absent, -⟩)
        · cases absent
        · exact absurd (Option.some.inj (kind.symm.trans token)) noToken
        · rw [kind] at absent
          cases absent
    · obtain ⟨rfl, rfl⟩ := run_pure_eq_iff.1 h
      refine ⟨⟨by simp [kind], fun _ => rfl⟩, ?_⟩
      rintro (absent | token | ⟨-, found⟩)
      · cases absent
      · rw [kind] at token
        cases token
      · rwa [Option.isSome_map]

theorem terminal_enters {owner : String} {t : Terminal} {symbol : Symbol}
    (h : (terminal n owner t).run s = (symbol, s')) :
    Enters s s' (fun L => n.enter owner L (.terminal t)) True := by
  rw [terminal_eq] at h
  simp only [Naming.enter]
  cases outside : n.outside? t with
  | some id =>
    rw [outside] at h
    obtain ⟨rfl, rfl⟩ := run_pure_eq_iff.1 h
    exact .refl _ _
  | none =>
    rw [outside] at h
    exact internAnonymous_enters h

mutual

theorem lowerWith_enters {owner : String} {sugar : Rule → StateM Lowering Expr} : (r : Rule) →
    r.isPlain = true → {s s' : Lowering} → {e : Expr} →
    (lowerWith n owner sugar r).run s = (e, s') →
    Enters s s' (fun L => n.enterAll owner L r.leaves) (∀ leaf ∈ r.leaves, n.Silent leaf)
  | .terminal t, _, s, s', e, h => by
    obtain ⟨symbol, s₁, run, h⟩ := run_bind_eq_iff.1 h
    obtain ⟨rfl, rfl⟩ := run_pure_eq_iff.1 h
    exact (terminal_enters run).imp rfl fun _ => trivial
  | .token content immediate, _, s, s', e, h => by
    obtain ⟨closed, s₁, hclosed, h⟩ := run_bind_eq_iff.1 h
    obtain ⟨rfl, rfl⟩ := tokenContent_run hclosed
    obtain ⟨symbol, s₂, run, h⟩ := run_bind_eq_iff.1 h
    obtain ⟨rfl, rfl⟩ := run_pure_eq_iff.1 h
    have entered := internAnonymous_enters run
    refine ⟨entered.lexicon, fun quiet => (entered.reports trivial).trans ?_⟩
    have inner := quiet (.token content immediate) (by simp [Rule.leaves]) owner
    rw [Naming.innerReports] at inner
    simp only [inner, List.append_nil]
  | .symbol name, _, s, s', e, h => by
    obtain ⟨symbol, s₁, run, h⟩ := run_bind_eq_iff.1 h
    have entered := (resolve_enters run).1
    have same : s₁ = s' := by
      split at h
      · exact (run_pure_eq_iff.1 h).2
      · exact (run_pure_eq_iff.1 h).2
    subst same
    exact entered.imp rfl fun quiet => quiet _ (by simp [Rule.leaves])
  | .seq members, plain, s, s', e, h | .choice members, plain, s, s', e, h => by
    rw [lowerWith, bind_pure_comp] at h
    obtain ⟨parts, run, rfl⟩ := run_map_eq_iff.1 h
    exact lowerAllWith_enters members plain run
  | .repeated _ .oneOrMore, plain, _, _, _, _ | .optional _, plain, _, _, _, _ =>
    absurd plain (by simp [Rule.isPlain])
  | .repeated content .zeroOrMore, plain, s, s', e, h | .prec _ _ content, plain, s, s', e, h
  | .aliased content _ _, plain, s, s', e, h | .field _ content, plain, s, s', e, h => by
    rw [lowerWith, bind_pure_comp] at h
    obtain ⟨part, run, rfl⟩ := run_map_eq_iff.1 h
    exact lowerWith_enters content plain run

theorem lowerAllWith_enters {owner : String} {sugar : Rule → StateM Lowering Expr} :
    (rules : List Rule) → Rule.arePlain rules = true → {s s' : Lowering} → {es : List Expr} →
    (lowerAllWith n owner sugar rules).run s = (es, s') →
    Enters s s' (fun L => n.enterAll owner L (Rule.leavesAll rules))
      (∀ leaf ∈ Rule.leavesAll rules, n.Silent leaf)
  | [], _, s, s', es, h => by
    obtain ⟨rfl, rfl⟩ := run_pure_eq_iff.1 h
    exact .refl _ _
  | r :: rs, plain, s, s'', es, h => by
    simp only [Rule.arePlain, Bool.and_eq_true] at plain
    obtain ⟨first, s', hfirst, h⟩ := run_bind_eq_iff.1 h
    obtain ⟨rest, _, hrest, h⟩ := run_bind_eq_iff.1 h
    obtain ⟨rfl, rfl⟩ := run_pure_eq_iff.1 h
    refine ((lowerWith_enters r plain.1 hfirst).trans
      (lowerAllWith_enters rs plain.2 hrest)).imp ?_ fun quiet => ?_
    · simp only [Naming.enterAll, Rule.leavesAll, List.foldl_append, Function.comp]
    · simp only [Rule.leavesAll, List.mem_append] at quiet
      exact ⟨fun leaf hl => quiet leaf (.inl hl), fun leaf hl => quiet leaf (.inr hl)⟩

end

theorem lower_enters {owner : String} {r : Rule} (plain : r.isPlain = true) {e : Expr}
    (h : (lower n owner r).run s = (e, s')) :
    Enters s s' (fun L => n.enterAll owner L r.leaves) (∀ leaf ∈ r.leaves, n.Silent leaf) :=
  lowerWith_enters r plain h

theorem exists_symbol_of_lower {owner : String} {r : Rule} (resolves : n.Resolves r) {e : Expr}
    (h : (lower n owner r).run s = (e, s')) : ∃ symbol, e = .symbol symbol := by
  unfold lower at h
  cases r with
  | terminal t =>
    obtain ⟨symbol, s₁, run, h⟩ := run_bind_eq_iff.1 h
    exact ⟨symbol, (run_pure_eq_iff.1 h).1.symm⟩
  | token content immediate =>
    obtain ⟨closed, s₁, -, h⟩ := run_bind_eq_iff.1 h
    obtain ⟨symbol, s₂, -, h⟩ := run_bind_eq_iff.1 h
    exact ⟨symbol, (run_pure_eq_iff.1 h).1.symm⟩
  | symbol name =>
    obtain ⟨symbol, s₁, run, h⟩ := run_bind_eq_iff.1 h
    obtain ⟨found, rfl⟩ := Option.isSome_iff_exists.1
      ((resolve_enters run).2 resolves)
    exact ⟨found, (run_pure_eq_iff.1 h).1.symm⟩
  | _ => exact resolves.elim

end Lowering

namespace Naming

variable (n : Naming)

theorem prefix_enterNamed (L : Lexicon) (name : String) :
    L.entries <+: (n.enterNamed L name).entries := by
  unfold enterNamed Lexicon.internNamed
  split
  · exact List.prefix_rfl
  · exact List.prefix_append _ _

theorem prefix_enter (owner : String) (L : Lexicon) (leaf : Rule) :
    L.entries <+: (n.enter owner L leaf).entries := by
  cases leaf with
  | terminal t =>
    rw [enter]
    split
    · exact List.prefix_rfl
    · exact Lexicon.prefix_internAnonymous _ _ _ _
  | token content immediate => exact Lexicon.prefix_internAnonymous _ _ _ _
  | symbol name =>
    rw [enter, enterName]
    split
    · exact n.prefix_enterNamed L name
    · exact List.prefix_rfl
  | _ => exact List.prefix_rfl

theorem prefix_foldl {α : Type} {step : Lexicon → α → Lexicon}
    (grows : ∀ L a, L.entries <+: (step L a).entries) (L : Lexicon) (as : List α) :
    L.entries <+: (as.foldl step L).entries := by
  induction as generalizing L with
  | nil => exact List.prefix_rfl
  | cons a as ih => exact (grows L a).trans (ih _)

theorem prefix_enterAll (owner : String) (L : Lexicon) (leaves : List Rule) :
    L.entries <+: (n.enterAll owner L leaves).entries :=
  prefix_foldl (n.prefix_enter owner) L leaves

def enterBody (L : Lexicon) (info : SymbolInfo) : Lexicon :=
  if info.kind = .token then n.enterNamed L info.name
  else n.enterAll info.name L (n.bodyOf info.name).leaves

def enterExtra (L : Lexicon) (extra : Rule) : Lexicon := n.enterAll "extras" L extra.leaves

def enterWord (word : Option String) (L : Lexicon) : Lexicon :=
  word.elim L (n.enterName L)

def enterToken (L : Lexicon) (info : SymbolInfo) : Lexicon :=
  if info.kind = .token then n.enterNamed L info.name else L

theorem prefix_enterBody (L : Lexicon) (info : SymbolInfo) :
    L.entries <+: (n.enterBody L info).entries := by
  unfold enterBody
  split
  · exact n.prefix_enterNamed L info.name
  · exact n.prefix_enterAll info.name L _

theorem prefix_enterExtra (L : Lexicon) (extra : Rule) :
    L.entries <+: (n.enterExtra L extra).entries :=
  n.prefix_enterAll "extras" L extra.leaves

theorem prefix_enterWord (word : Option String) (L : Lexicon) :
    L.entries <+: (n.enterWord word L).entries := by
  cases word with
  | none => exact List.prefix_rfl
  | some name => exact n.prefix_enter "" L (.symbol name)

def enterHidden (L : Lexicon) (info : SymbolInfo) : Lexicon :=
  n.enterAll info.name L (n.bodyOf info.name).leaves

theorem prefix_enterHidden (L : Lexicon) (info : SymbolInfo) :
    L.entries <+: (n.enterHidden L info).entries :=
  n.prefix_enterAll info.name L _

theorem prefix_enterToken (L : Lexicon) (info : SymbolInfo) :
    L.entries <+: (n.enterToken L info).entries := by
  unfold enterToken
  split
  · exact n.prefix_enterNamed L info.name
  · exact List.prefix_rfl

def QuietBody (info : SymbolInfo) : Prop :=
  if info.kind = .token then n.namedReports info.name = []
  else ∀ leaf ∈ (n.bodyOf info.name).leaves, n.Silent leaf

def QuietExtra (extra : Rule) : Prop := n.Resolves extra ∧ ∀ leaf ∈ extra.leaves, n.Silent leaf

end Naming

namespace NormalForm

open Lowering

variable {n : Naming} {s s' : Lowering}

theorem lowerBody_enters (plain : n.Plain) {info : SymbolInfo} {e : Expr}
    (h : (lowerBody n info).run s = (e, s')) :
    Enters s s' (fun L => n.enterBody L info) (n.QuietBody info) := by
  unfold lowerBody at h
  unfold Naming.enterBody Naming.QuietBody
  by_cases kind : info.kind = .token
  · rw [if_pos kind] at h
    obtain ⟨id, s₁, run, h⟩ := run_bind_eq_iff.1 h
    obtain ⟨rfl, rfl⟩ := run_pure_eq_iff.1 h
    exact (namedToken_enters run).imp (by rw [if_pos kind]) fun quiet => by rwa [if_pos kind] at quiet
  · rw [if_neg kind] at h
    exact (lower_enters (plain info.name) h).imp (by rw [if_neg kind])
      fun quiet => by rwa [if_neg kind] at quiet

theorem lowerVariables_enters (plain : n.Plain) {inlined : OrderedMap String Inlined}
    {infos : List SymbolInfo} {vars : List Variable}
    (h : (lowerVariables n inlined infos).run s = (vars, s')) :
    Enters s s' (fun L => infos.foldl n.enterBody L) (∀ info ∈ infos, n.QuietBody info) := by
  induction infos generalizing s vars with
  | nil =>
    obtain ⟨rfl, rfl⟩ := run_pure_eq_iff.1 h
    exact .refl _ _
  | cons info infos ih =>
    obtain ⟨body, s₁, first, h⟩ := run_bind_eq_iff.1 h
    obtain ⟨rest, s₂, run, h⟩ := run_bind_eq_iff.1 h
    obtain ⟨rfl, rfl⟩ := run_pure_eq_iff.1 h
    exact ((lowerBody_enters plain first).trans (ih run)).imp rfl
      fun quiet => ⟨quiet info (by simp), fun i hi => quiet i (by simp [hi])⟩

theorem lowerExtras_enters {extras : List Rule} (plain : ∀ extra ∈ extras, extra.isPlain = true)
    {place : Nat} {symbols : List Symbol}
    (h : (lowerExtras n place extras).run s = (symbols, s')) :
    Enters s s' (fun L => extras.foldl n.enterExtra L) (∀ extra ∈ extras, n.QuietExtra extra) := by
  induction extras generalizing s symbols place with
  | nil =>
    obtain ⟨rfl, rfl⟩ := run_pure_eq_iff.1 h
    exact .refl _ _
  | cons extra extras ih =>
    obtain ⟨e, s₁, first, h⟩ := run_bind_eq_iff.1 h
    have entered := lower_enters (plain extra (by simp)) first
    split at h
    · obtain ⟨rest, s₂, run, h⟩ := run_bind_eq_iff.1 h
      obtain ⟨rfl, rfl⟩ := run_pure_eq_iff.1 h
      exact (entered.trans (ih (fun i hi => plain i (by simp [hi])) run)).imp rfl
        fun quiet => ⟨(quiet extra (by simp)).2, fun i hi => quiet i (by simp [hi])⟩
    · rename_i noSymbol
      obtain ⟨_, s₂, hmodify, run⟩ := run_bind_eq_iff.1 h
      obtain rfl := run_modify_eq_iff.1 hmodify
      have rest := ih (fun i hi => plain i (by simp [hi])) run
      refine ⟨?_, fun quiet => ?_⟩
      · rw [rest.lexicon, entered.lexicon]
        rfl
      · obtain ⟨symbol, rfl⟩ := exists_symbol_of_lower (quiet extra (by simp)).1 first
        exact absurd rfl (noSymbol symbol)

theorem resolveWord_enters {word : Option String} {symbol : Option Symbol}
    (h : (resolveWord n word).run s = (symbol, s')) :
    Enters s s' (n.enterWord word) (∀ name ∈ word, n.Silent (.symbol name)) := by
  cases word with
  | none =>
    obtain ⟨rfl, rfl⟩ := run_pure_eq_iff.1 h
    exact .refl _ _
  | some name => exact (resolve_enters h).1.imp rfl fun quiet => quiet name rfl

theorem lowerTokens_enters {infos : List SymbolInfo} {u : Unit}
    (h : (lowerTokens n infos).run s = (u, s')) :
    Enters s s' (fun L => infos.foldl n.enterToken L)
      (∀ info ∈ infos, info.kind = .token → n.namedReports info.name = []) := by
  induction infos generalizing s with
  | nil =>
    obtain ⟨-, rfl⟩ := run_pure_eq_iff.1 h
    exact .refl _ _
  | cons info infos ih =>
    rw [lowerTokens] at h
    by_cases kind : info.kind = .token
    · rw [if_pos kind] at h
      obtain ⟨_, s₁, first, run⟩ := run_bind_eq_iff.1 h
      obtain ⟨id, first, -⟩ := run_map_eq_iff.1 first
      refine ((namedToken_enters first).trans (ih run)).imp ?_ fun quiet =>
        ⟨quiet info (by simp) kind, fun i hi => quiet i (by simp [hi])⟩
      rw [List.foldl_cons, Naming.enterToken, if_pos kind]
      rfl
    · rw [if_neg kind] at h
      refine (ih h).imp ?_ fun quiet i hi => quiet i (by simp [hi])
      rw [List.foldl_cons, Naming.enterToken, if_neg kind]

theorem lowerHidden_enters (plain : n.Plain) {start : String} {infos : List SymbolInfo}
    {expansions : List (String × Expr)}
    (h : (lowerHidden n start infos).run s = (expansions, s')) :
    Enters s s' (fun L => (expandedInfos start infos).foldl n.enterHidden L)
      (∀ info ∈ expandedInfos start infos, ∀ leaf ∈ (n.bodyOf info.name).leaves,
        n.Silent leaf) := by
  induction infos generalizing s expansions with
  | nil =>
    obtain ⟨rfl, rfl⟩ := run_pure_eq_iff.1 h
    exact ⟨rfl, fun _ => rfl⟩
  | cons info infos ih =>
    rw [lowerHidden] at h
    rw [expandedInfos, List.filter_cons]
    by_cases expanded : (info.kind = .hidden && info.name != start) = true
    · rw [if_pos expanded] at h ⊢
      obtain ⟨body, s₁, first, h⟩ := run_bind_eq_iff.1 h
      obtain ⟨rest, s₂, run, h⟩ := run_bind_eq_iff.1 h
      obtain ⟨rfl, rfl⟩ := run_pure_eq_iff.1 h
      have entered := (lower_enters (plain info.name) first).trans (ih run)
      refine ⟨?_, fun quiet => entered.reports ⟨quiet info List.mem_cons_self,
        fun i hi => quiet i (List.mem_cons_of_mem _ hi)⟩⟩
      rw [entered.lexicon, List.foldl_cons]
      rfl
    · rw [if_neg expanded] at h ⊢
      exact ih h

/-- Where nothing can be reported while a grammar is lowered. -/
structure Quiet (g : Grammar) (n : Naming) (extras : List Rule) (kept : List SymbolInfo)
    (start : String) : Prop where
  bodies : ∀ info ∈ kept, n.QuietBody info
  extras : ∀ extra ∈ extras, n.QuietExtra extra
  word : ∀ name ∈ g.word, n.Silent (.symbol name)
  tokens : ∀ info ∈ n.table.infos, info.kind = .token → n.namedReports info.name = []
  hidden : ∀ info ∈ expandedInfos start n.table.infos, ∀ leaf ∈ (n.bodyOf info.name).leaves,
    n.Silent leaf

/-- The table before the token rules that nothing refers to. -/
def lexiconBeforeTokens (g : Grammar) (n : Naming) (extras : List Rule) (kept : List SymbolInfo)
    (L : Lexicon) : Lexicon :=
  n.enterWord g.word (extras.foldl n.enterExtra (kept.foldl n.enterBody L))

theorem lowerParts_enters {g : Grammar} (plain : n.Plain) {inlined : OrderedMap String Inlined}
    {extras : List Rule} (plainExtras : ∀ extra ∈ extras, extra.isPlain = true)
    {kept : List SymbolInfo} {start : String} {parts : Lowered}
    (h : (lowerParts g n inlined extras kept start).run s = (parts, s')) :
    Enters s s' (fun L => (expandedInfos start n.table.infos).foldl n.enterHidden
        (n.table.infos.foldl n.enterToken (lexiconBeforeTokens g n extras kept L)))
      (Quiet g n extras kept start) := by
  rw [lowerParts_eq] at h
  obtain ⟨vars, s₁, varsRun, h⟩ := run_bind_eq_iff.1 h
  obtain ⟨symbols, s₂, extrasRun, h⟩ := run_bind_eq_iff.1 h
  obtain ⟨word, s₃, wordRun, h⟩ := run_bind_eq_iff.1 h
  obtain ⟨_, s₄, tokensRun, h⟩ := run_bind_eq_iff.1 h
  obtain ⟨expansions, s₅, hiddenRun, h⟩ := run_bind_eq_iff.1 h
  obtain ⟨rfl, rfl⟩ := run_pure_eq_iff.1 h
  have entered := (lowerVariables_enters plain varsRun).trans
    ((lowerExtras_enters plainExtras extrasRun).trans ((resolveWord_enters wordRun).trans
      ((lowerTokens_enters tokensRun).trans (lowerHidden_enters plain hiddenRun))))
  refine entered.imp ?_ fun quiet =>
    ⟨quiet.bodies, quiet.extras, quiet.word, quiet.tokens, quiet.hidden⟩
  simp only [Function.comp, lexiconBeforeTokens]

end NormalForm

end Productions
