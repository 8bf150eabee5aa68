import Productions.Normal.OfGrammar
import Productions.Proofs.Lowering.Run
import Productions.Proofs.Lowering.Tokens

/-! What lowering a whole grammar computes: the entries of the lexical table, and the variables,
extras, word rule and expansions read off the finished table. -/
namespace Productions

open Lowering

/-- Every entry of a lexical table is one that lowering enters, and none of its references was
reported. -/
structure Naming.Entered (n : Naming) (L : Lexicon) : Prop where
  named : ∀ entry ∈ L.entries, entry.named = true → n.table.kind? entry.name = some .token
    ∧ entry.content = n.namedContent entry.name ∧ entry.immediate = (n.tokenBody entry.name).2
    ∧ n.namedReports entry.name = []
  anonymous : ∀ entry ∈ L.entries, entry.named = false →
    (∃ t, n.outside? t = none ∧ entry.content = .terminal t ∧ entry.immediate = false)
      ∨ ∃ content owner, entry.content = n.innerContent content ∧ n.innerReports owner content = []

namespace Lowering

variable {n : Naming} {s s' : Lowering}

theorem entered_start (n : Naming) : n.Entered start.lexicon :=
  ⟨fun entry h => absurd h (by simp [start, EmptyCollection.emptyCollection, Lexicon.empty]),
    fun entry h => absurd h (by simp [start, EmptyCollection.emptyCollection, Lexicon.empty])⟩

theorem entered_append {L L' : Lexicon} {entry : LexicalEntry} (h : n.Entered L)
    (added : L'.entries = L.entries ++ [entry])
    (named : entry.named = true → n.table.kind? entry.name = some .token
      ∧ entry.content = n.namedContent entry.name ∧ entry.immediate = (n.tokenBody entry.name).2
      ∧ n.namedReports entry.name = [])
    (anonymous : entry.named = false →
      (∃ t, n.outside? t = none ∧ entry.content = .terminal t ∧ entry.immediate = false)
        ∨ ∃ content owner, entry.content = n.innerContent content
          ∧ n.innerReports owner content = []) : n.Entered L' where
  named other mem := by
    rw [added, List.mem_append, List.mem_singleton] at mem
    rcases mem with mem | rfl
    · exact h.named other mem
    · exact named
  anonymous other mem := by
    rw [added, List.mem_append, List.mem_singleton] at mem
    rcases mem with mem | rfl
    · exact h.anonymous other mem
    · exact anonymous

theorem entered_internAnonymous {L : Lexicon} {content : Rule} {immediate : Bool} {owner : String}
    (h : n.Entered L)
    (right : (∃ t, n.outside? t = none ∧ content = .terminal t ∧ immediate = false)
      ∨ ∃ inner owner, content = n.innerContent inner ∧ n.innerReports owner inner = []) :
    n.Entered (L.internAnonymous content immediate owner).2 := by
  rcases Lexicon.internAnonymous_cases L content immediate owner
    with ⟨id, -, same⟩ | ⟨-, -, name, added⟩
  · rw [same]
    exact h
  · exact entered_append h added nofun fun _ => right

theorem Step.entered (h : Step n s s') (none : s'.reports = []) (entered : n.Entered s.lexicon) :
    n.Entered s'.lexicon := by
  cases h with
  | terminal t owner inside => exact entered_internAnonymous entered (.inl ⟨t, inside, rfl, rfl⟩)
  | token content immediate owner =>
    have quiet := (List.append_eq_nil_iff.1 none).2
    exact entered_internAnonymous entered (.inr ⟨content, owner, rfl, quiet⟩)
  | named name kind new =>
    have quiet := (List.append_eq_nil_iff.1 none).2
    rw [Lexicon.internNamed_of_new new]
    exact entered_append entered rfl (fun _ => ⟨kind, rfl, rfl, quiet⟩) nofun
  | report d error => simp at none

theorem Steps.entered (h : Steps n s s') (none : s'.reports = []) (entered : n.Entered s.lexicon) :
    n.Entered s'.lexicon := by
  induction h with
  | refl => exact entered
  | @tail before after _ step ih =>
    have quiet : before.reports = [] := by simpa [none] using step.reports
    exact step.entered none (ih quiet)

theorem Step.errors (h : Step n s s') (old : ∀ d ∈ s.reports, d.isError = true) :
    ∀ d ∈ s'.reports, d.isError = true := by
  cases h with
  | terminal => exact old
  | token | named =>
    intro d hd
    rcases List.mem_append.1 hd with hd | hd
    · exact old d hd
    · exact TokenContent.isError_of_mem_reports hd
  | report new error =>
    intro d hd
    rcases List.mem_append.1 hd with hd | hd
    · exact old d hd
    · rwa [List.mem_singleton.1 hd]

theorem Steps.errors (h : Steps n s s') (old : ∀ d ∈ s.reports, d.isError = true) :
    ∀ d ∈ s'.reports, d.isError = true := by
  induction h with
  | refl => exact old
  | tail _ step ih => exact step.errors ih

end Lowering

namespace Naming

variable (n : Naming)

def bodyOf (name : String) : Rule := n.bodies.getD name .blank

def bodyIn (L : Lexicon) (info : SymbolInfo) : Expr :=
  if info.kind = .token then
    ((L.findNamed? info.name).map fun id => Expr.symbol (.lexical id)).getD .blank
  else n.lowered L (n.bodyOf info.name)

def BodyPlaced (L : Lexicon) (info : SymbolInfo) : Prop :=
  if info.kind = .token then (L.findNamed? info.name).isSome = true
  else ∀ leaf ∈ (n.bodyOf info.name).leaves, n.Placed L leaf

def variableIn (L : Lexicon) (inlined : OrderedMap String Inlined) (info : SymbolInfo) :
    Variable :=
  ⟨info.name, info.kind, n.bodyIn L info, (inlined.getD info.name .blank).used.toList, ∅⟩

/-- The inlined bodies are canonical forms, so lowering finds no sugar in them. -/
def Plain : Prop := ∀ name, (n.bodyOf name).isPlain = true

end Naming

namespace NormalForm

variable {n : Naming} {s s' : Lowering}

theorem bodyIn_of_grown {L L' : Lexicon} (h : L.entries <+: L'.entries) {info : SymbolInfo}
    (placed : n.BodyPlaced L info) : n.bodyIn L info = n.bodyIn L' info := by
  unfold Naming.BodyPlaced at placed
  unfold Naming.bodyIn
  by_cases kind : info.kind = .token
  · rw [if_pos kind] at placed ⊢
    obtain ⟨id, found⟩ := Option.isSome_iff_exists.1 placed
    rw [if_pos kind, found, Lexicon.findNamed?_of_grown h found]
  · rw [if_neg kind] at placed ⊢
    rw [if_neg kind, lowered_of_grown h _ placed]

theorem bodyPlaced_of_grown {L L' : Lexicon} (h : L.entries <+: L'.entries) {info : SymbolInfo}
    (placed : n.BodyPlaced L info) : n.BodyPlaced L' info := by
  unfold Naming.BodyPlaced at placed ⊢
  by_cases kind : info.kind = .token
  · rw [if_pos kind] at placed ⊢
    obtain ⟨id, found⟩ := Option.isSome_iff_exists.1 placed
    rw [Lexicon.findNamed?_of_grown h found]
    rfl
  · rw [if_neg kind] at placed ⊢
    exact fun leaf hl => placed_of_grown h (placed leaf hl)

theorem kind?_of_get? {t : SymbolTable} {info : SymbolInfo} {kind : SymbolKind}
    (get : t.get? info.name = some info) (h : info.kind = kind) :
    t.kind? info.name = some kind := by
  rw [SymbolTable.kind?, get, Option.map_some, h]

theorem lowerBody_run (plain : n.Plain) {info : SymbolInfo}
    (get : n.table.get? info.name = some info) {e : Expr}
    (h : (lowerBody n info).run s = (e, s')) :
    Steps n s s' ∧ (s'.reports = [] →
      e = n.bodyIn s'.lexicon info ∧ n.BodyPlaced s'.lexicon info) := by
  unfold lowerBody at h
  unfold Naming.bodyIn Naming.BodyPlaced
  by_cases kind : info.kind = .token
  · rw [if_pos kind] at h
    obtain ⟨id, s₁, run, h⟩ := run_bind_eq_iff.1 h
    obtain ⟨rfl, rfl⟩ := run_pure_eq_iff.1 h
    obtain ⟨steps, found⟩ := namedToken_run (kind?_of_get? get kind) run
    rw [if_pos kind, if_pos kind, found]
    exact ⟨steps, fun _ => ⟨rfl, rfl⟩⟩
  · rw [if_neg kind] at h
    rw [if_neg kind, if_neg kind]
    exact lower_run (plain info.name) h

theorem lowerVariables_run (plain : n.Plain) {inlined : OrderedMap String Inlined}
    {infos : List SymbolInfo} (get : ∀ info ∈ infos, n.table.get? info.name = some info)
    {vars : List Variable} (h : (lowerVariables n inlined infos).run s = (vars, s')) :
    Steps n s s' ∧ (s'.reports = [] → vars = infos.map (n.variableIn s'.lexicon inlined)
      ∧ ∀ info ∈ infos, n.BodyPlaced s'.lexicon info) := by
  induction infos generalizing s vars with
  | nil =>
    obtain ⟨rfl, rfl⟩ := run_pure_eq_iff.1 h
    exact ⟨.refl, fun _ => ⟨rfl, by simp⟩⟩
  | cons info infos ih =>
    obtain ⟨body, s₁, first, h⟩ := run_bind_eq_iff.1 h
    obtain ⟨rest, s₂, run, h⟩ := run_bind_eq_iff.1 h
    obtain ⟨rfl, rfl⟩ := run_pure_eq_iff.1 h
    obtain ⟨steps, right⟩ := lowerBody_run plain (get info (by simp)) first
    obtain ⟨stepsRest, rightRest⟩ := ih (fun i hi => get i (by simp [hi])) run
    refine ⟨steps.trans stepsRest, fun none => ?_⟩
    obtain ⟨rfl, placed⟩ := right (stepsRest.silent none)
    obtain ⟨rfl, placedRest⟩ := rightRest none
    refine ⟨?_, ?_⟩
    · rw [List.map_cons, Naming.variableIn, bodyIn_of_grown stepsRest.entries placed]
    · intro other mem
      rcases List.mem_cons.1 mem with rfl | mem
      · exact bodyPlaced_of_grown stepsRest.entries placed
      · exact placedRest other mem

def ExtraIn (n : Naming) (L : Lexicon) (extra : Rule) (symbol : Symbol) : Prop :=
  n.lowered L extra = .symbol symbol ∧ ∀ leaf ∈ extra.leaves, n.Placed L leaf

theorem ExtraIn.of_grown {L L' : Lexicon} (h : L.entries <+: L'.entries) {extra : Rule}
    {symbol : Symbol} (extraIn : ExtraIn n L extra symbol) : ExtraIn n L' extra symbol :=
  ⟨by rw [← lowered_of_grown h extra extraIn.2, extraIn.1],
    fun leaf hl => placed_of_grown h (extraIn.2 leaf hl)⟩

theorem lowerExtras_run {extras : List Rule} (plain : ∀ extra ∈ extras, extra.isPlain = true)
    {place : Nat} {symbols : List Symbol}
    (h : (lowerExtras n place extras).run s = (symbols, s')) :
    Steps n s s' ∧ (s'.reports = [] →
      List.Forall₂ (ExtraIn n s'.lexicon) extras symbols) := by
  induction extras generalizing s symbols place with
  | nil =>
    obtain ⟨rfl, rfl⟩ := run_pure_eq_iff.1 h
    exact ⟨.refl, fun _ => .nil⟩
  | cons extra extras ih =>
    obtain ⟨e, s₁, first, h⟩ := run_bind_eq_iff.1 h
    obtain ⟨steps, right⟩ := lower_run (plain extra (by simp)) first
    split at h
    · rename_i symbol
      obtain ⟨rest, s₂, run, h⟩ := run_bind_eq_iff.1 h
      obtain ⟨rfl, rfl⟩ := run_pure_eq_iff.1 h
      obtain ⟨stepsRest, rightRest⟩ := ih (fun i hi => plain i (by simp [hi])) run
      refine ⟨steps.trans stepsRest, fun none => ?_⟩
      obtain ⟨found, placed⟩ := right (stepsRest.silent none)
      exact .cons (.of_grown stepsRest.entries ⟨found.symm, placed⟩) (rightRest none)
    · obtain ⟨_, s₂, hmodify, run⟩ := run_bind_eq_iff.1 h
      obtain rfl := run_modify_eq_iff.1 hmodify
      obtain ⟨stepsRest, -⟩ := ih (fun i hi => plain i (by simp [hi])) run
      refine ⟨(steps.tail (.report _ rfl)).trans stepsRest, fun none => ?_⟩
      have before := stepsRest.silent none
      simp at before

theorem lowerTokens_run {infos : List SymbolInfo}
    (get : ∀ info ∈ infos, n.table.get? info.name = some info) {u : Unit}
    (h : (lowerTokens n infos).run s = (u, s')) :
    Steps n s s' ∧ ∀ info ∈ infos, info.kind = .token →
      (s'.lexicon.findNamed? info.name).isSome := by
  induction infos generalizing s with
  | nil =>
    obtain ⟨-, rfl⟩ := run_pure_eq_iff.1 h
    exact ⟨.refl, by simp⟩
  | cons info infos ih =>
    rw [lowerTokens] at h
    by_cases kind : info.kind = .token
    · rw [if_pos kind] at h
      obtain ⟨_, s₁, first, run⟩ := run_bind_eq_iff.1 h
      obtain ⟨id, first, -⟩ := run_map_eq_iff.1 first
      obtain ⟨steps, found⟩ := namedToken_run (kind?_of_get? (get info (by simp)) kind) first
      obtain ⟨stepsRest, rest⟩ := ih (fun i hi => get i (by simp [hi])) run
      refine ⟨steps.trans stepsRest, fun other mem token => ?_⟩
      rcases List.mem_cons.1 mem with rfl | mem
      · rw [Lexicon.findNamed?_of_grown stepsRest.entries found]
        rfl
      · exact rest other mem token
    · rw [if_neg kind] at h
      obtain ⟨stepsRest, rest⟩ := ih (fun i hi => get i (by simp [hi])) h
      refine ⟨stepsRest, fun other mem token => ?_⟩
      rcases List.mem_cons.1 mem with rfl | mem
      · exact absurd token kind
      · exact rest other mem token

def expandedInfos (start : String) (infos : List SymbolInfo) : List SymbolInfo :=
  infos.filter fun info => info.kind = .hidden && info.name != start

theorem lowerHidden_run (plain : n.Plain) {start : String} {infos : List SymbolInfo}
    {expansions : List (String × Expr)}
    (h : (lowerHidden n start infos).run s = (expansions, s')) :
    Steps n s s' ∧ (s'.reports = [] →
      expansions = (expandedInfos start infos).map (fun info =>
        (info.name, n.lowered s'.lexicon (n.bodyOf info.name)))
      ∧ ∀ info ∈ expandedInfos start infos, ∀ leaf ∈ (n.bodyOf info.name).leaves,
        n.Placed s'.lexicon leaf) := by
  induction infos generalizing s expansions with
  | nil =>
    obtain ⟨rfl, rfl⟩ := run_pure_eq_iff.1 h
    exact ⟨.refl, fun _ => ⟨rfl, by simp [expandedInfos]⟩⟩
  | cons info infos ih =>
    rw [lowerHidden] at h
    by_cases expanded : (info.kind = .hidden && info.name != start) = true
    · rw [if_pos expanded] at h
      obtain ⟨body, s₁, first, h⟩ := run_bind_eq_iff.1 h
      obtain ⟨rest, s₂, run, h⟩ := run_bind_eq_iff.1 h
      obtain ⟨rfl, rfl⟩ := run_pure_eq_iff.1 h
      obtain ⟨steps, right⟩ := lower_run (plain info.name) first
      obtain ⟨stepsRest, rightRest⟩ := ih run
      have kept : expandedInfos start (info :: infos) = info :: expandedInfos start infos := by
        rw [expandedInfos, List.filter_cons, if_pos expanded]
        rfl
      refine ⟨steps.trans stepsRest, fun none => ?_⟩
      obtain ⟨rfl, placed⟩ := right (stepsRest.silent none)
      obtain ⟨rfl, placedRest⟩ := rightRest none
      rw [kept]
      refine ⟨?_, ?_⟩
      · rw [List.map_cons, lowered_of_grown stepsRest.entries _ placed]
      · intro other mem
        rcases List.mem_cons.1 mem with rfl | mem
        · exact fun leaf hl => placed_of_grown stepsRest.entries (placed leaf hl)
        · exact placedRest other mem
    · rw [if_neg expanded] at h
      obtain ⟨stepsRest, rightRest⟩ := ih h
      have dropped : expandedInfos start (info :: infos) = expandedInfos start infos := by
        rw [expandedInfos, List.filter_cons, if_neg expanded]
        rfl
      rw [dropped]
      exact ⟨stepsRest, rightRest⟩

/-- The parts of a normal form, read off a finished lexical table. -/
structure PartsIn (g : Grammar) (n : Naming) (inlined : OrderedMap String Inlined)
    (extras : List Rule) (kept : List SymbolInfo) (start : String) (L : Lexicon)
    (parts : Lowered) : Prop where
  vars : parts.vars = kept.map (n.variableIn L inlined)
  bodies : ∀ info ∈ kept, n.BodyPlaced L info
  extras : List.Forall₂ (ExtraIn n L) extras parts.extras
  word : parts.word = g.word.bind (n.nameIn L)
  wordPlaced : ∀ word ∈ g.word, n.Placed L (.symbol word)
  tokens : ∀ info ∈ n.table.infos, info.kind = .token → (L.findNamed? info.name).isSome
  expansions : parts.expansions = (expandedInfos start n.table.infos).map fun info =>
    (info.name, n.lowered L (n.bodyOf info.name))
  hidden : ∀ info ∈ expandedInfos start n.table.infos, ∀ leaf ∈ (n.bodyOf info.name).leaves,
    n.Placed L leaf

def resolveWord (n : Naming) : Option String → StateM Lowering (Option Symbol)
  | some word => resolve n word
  | none => pure none

theorem resolveWord_run {word : Option String} {symbol : Option Symbol}
    (h : (resolveWord n word).run s = (symbol, s')) :
    Steps n s s' ∧ symbol = word.bind (n.nameIn s'.lexicon)
      ∧ ∀ w ∈ word, n.Placed s'.lexicon (.symbol w) := by
  cases word with
  | none =>
    obtain ⟨rfl, rfl⟩ := run_pure_eq_iff.1 h
    exact ⟨.refl, rfl, by simp⟩
  | some name =>
    obtain ⟨steps, rfl, placed⟩ := resolve_run h
    exact ⟨steps, rfl, by simpa using placed⟩

theorem lowerParts_eq (g : Grammar) (n : Naming) (inlined : OrderedMap String Inlined)
    (extras : List Rule) (kept : List SymbolInfo) (start : String) :
    lowerParts g n inlined extras kept start = do
      let vars ← lowerVariables n inlined kept
      let extras ← lowerExtras n 1 extras
      let word ← resolveWord n g.word
      lowerTokens n n.table.infos
      let expansions ← lowerHidden n start n.table.infos
      return ⟨vars, extras, word, expansions⟩ := by
  unfold lowerParts
  cases g.word <;> rfl

theorem lowerParts_run {g : Grammar} (plain : n.Plain) {inlined : OrderedMap String Inlined}
    {extras : List Rule} (plainExtras : ∀ extra ∈ extras, extra.isPlain = true)
    {kept : List SymbolInfo} {start : String}
    (get : ∀ info ∈ kept, n.table.get? info.name = some info)
    (getAll : ∀ info ∈ n.table.infos, n.table.get? info.name = some info) {parts : Lowered}
    (h : (lowerParts g n inlined extras kept start).run s = (parts, s')) :
    Steps n s s' ∧ (s'.reports = [] →
      PartsIn g n inlined extras kept start s'.lexicon parts) := by
  rw [lowerParts_eq] at h
  obtain ⟨vars, s₁, varsRun, h⟩ := run_bind_eq_iff.1 h
  obtain ⟨symbols, s₂, extrasRun, h⟩ := run_bind_eq_iff.1 h
  obtain ⟨word, s₃, wordRun, h⟩ := run_bind_eq_iff.1 h
  obtain ⟨_, s₄, tokensRun, h⟩ := run_bind_eq_iff.1 h
  obtain ⟨expansions, s₅, hiddenRun, h⟩ := run_bind_eq_iff.1 h
  obtain ⟨rfl, rfl⟩ := run_pure_eq_iff.1 h
  obtain ⟨varsSteps, varsRight⟩ := lowerVariables_run plain get varsRun
  obtain ⟨extrasSteps, extrasRight⟩ := lowerExtras_run plainExtras extrasRun
  obtain ⟨tokensSteps, tokensRight⟩ := lowerTokens_run getAll tokensRun
  obtain ⟨hiddenSteps, hiddenRight⟩ := lowerHidden_run plain hiddenRun
  obtain ⟨wordSteps, rfl, wordPlaced⟩ := resolveWord_run wordRun
  have after₄ := hiddenSteps.entries
  have after₃ := tokensSteps.entries.trans after₄
  have after₂ := wordSteps.entries.trans after₃
  have after₁ := extrasSteps.entries.trans after₂
  refine ⟨varsSteps.trans (extrasSteps.trans (wordSteps.trans (tokensSteps.trans hiddenSteps))),
    fun none => ?_⟩
  have none₄ := hiddenSteps.silent none
  have none₃ := tokensSteps.silent none₄
  have none₂ := wordSteps.silent none₃
  have none₁ := extrasSteps.silent none₂
  obtain ⟨rfl, bodies⟩ := varsRight none₁
  obtain ⟨rfl, hidden⟩ := hiddenRight none
  refine ⟨?_, ?_, ?_, ?_, ?_, ?_, rfl, hidden⟩
  · refine List.map_congr_left fun info mem => ?_
    rw [Naming.variableIn, Naming.variableIn, bodyIn_of_grown after₁ (bodies info mem)]
  · exact fun info mem => bodyPlaced_of_grown after₁ (bodies info mem)
  · exact (extrasRight none₂).imp fun _ _ => ExtraIn.of_grown after₂
  · cases given : g.word with
    | none => rfl
    | some name => exact nameIn_of_grown after₃ (wordPlaced name given)
  · exact fun w hw => placed_of_grown after₃ (wordPlaced w hw)
  · intro info mem token
    obtain ⟨id, found⟩ := Option.isSome_iff_exists.1 (tokensRight info mem token)
    rw [Lexicon.findNamed?_of_grown after₄ found]
    rfl

end NormalForm

end Productions
