import Productions.Proofs.Levels
import Productions.Proofs.Recompilation.Reading
import Productions.Proofs.Stages

/-! The lexical table of a compiled grammar as a reading of its own symbols. Precedences are settled
after the table is made; as long as that makes no two anonymous entries equal, the settled table is
read in the same way. -/
namespace Productions

/-- Elements of which no two are related have one place each. -/
theorem eq_of_pairwise {α : Type} {r : α → α → Prop} {l : List α} {i j : Nat} {a b : α}
    (symm : ∀ {a b}, r a b → r b a) (h : l.Pairwise fun a b => ¬ r a b) (first : l[i]? = some a)
    (second : l[j]? = some b) (related : r a b) : i = j := by
  obtain ⟨boundFirst, rfl⟩ := List.getElem?_eq_some_iff.1 first
  obtain ⟨boundSecond, rfl⟩ := List.getElem?_eq_some_iff.1 second
  rcases Nat.lt_trichotomy i j with less | same | more
  · exact absurd related (List.pairwise_iff_getElem.1 h i j boundFirst boundSecond less)
  · exact same
  · exact absurd (symm related) (List.pairwise_iff_getElem.1 h j i boundSecond boundFirst more)

/-- Anonymous entries that stand for the same text. -/
def LexicalEntry.Alike (e f : LexicalEntry) : Prop :=
  e.named = false ∧ f.named = false ∧ e.content = f.content ∧ e.immediate = f.immediate

namespace Lexicon

variable {levels : Levels} {L F : Lexicon} {R : List LexicalEntry} {content : Rule}
  {immediate : Bool} {owner name : String} {id : Nat}

def Distinct (R : List LexicalEntry) : Prop := R.Pairwise fun e f => ¬ e.Alike f

theorem Distinct.eq_of_alike (h : Distinct R) {i j : Nat} {e f : LexicalEntry}
    (first : R[i]? = some e) (second : R[j]? = some f) (alike : e.Alike f) : i = j :=
  eq_of_pairwise (fun ⟨a, b, c, d⟩ => ⟨b, a, c.symm, d.symm⟩) h first second alike

def settleEntry (levels : Levels) (entry : LexicalEntry) : LexicalEntry :=
  { entry with content := entry.content.resolveLevels levels }

def ofEntries (entries : List LexicalEntry) (madeUp : OrderedMap String Nat) : Lexicon :=
  ⟨entries, _, _, madeUp, rfl, rfl⟩

def settle (levels : Levels) (L : Lexicon) : Lexicon :=
  .ofEntries (L.entries.map (settleEntry levels)) L.madeUp

theorem getElem?_settle (levels : Levels) (L : Lexicon) (id : Nat) :
    (L.settle levels).entries[id]? = L.entries[id]?.map (settleEntry levels) :=
  List.getElem?_map

theorem findNamed?_settle (levels : Levels) (L : Lexicon) (name : String) :
    (L.settle levels).findNamed? name = L.findNamed? name := by
  rw [findNamed?_eq, findNamed?_eq]
  exact List.findIdx?_map

theorem findAnonymous?_settle (h : L.findAnonymous? content immediate = some id) :
    ∃ place, (L.settle levels).findAnonymous? (content.resolveLevels levels) immediate
      = some place := by
  obtain ⟨entry, found, unnamed, rfl, rfl⟩ := exists_of_findAnonymous? h
  have mem : settleEntry levels entry ∈ (L.settle levels).entries :=
    List.mem_map_of_mem (List.mem_of_getElem? found)
  exact Option.isSome_iff_exists.1 (isSome_findAnonymous? mem unnamed)

theorem settle_internAnonymous_of_new
    (new : L.findAnonymous? content immediate = none)
    (settled : (L.settle levels).findAnonymous? (content.resolveLevels levels) immediate = none) :
    ((L.settle levels).internAnonymous (content.resolveLevels levels) immediate owner).2
      = (L.internAnonymous content immediate owner).2.settle levels := by
  unfold internAnonymous
  rw [new, settled]
  cases content with
  | terminal t =>
    cases t <;> apply eq_of_entries <;>
      simp [Rule.resolveLevels, push, settle, settleEntry, ofEntries]
  | _ => apply eq_of_entries <;> simp [Rule.resolveLevels, push, settle, settleEntry, ofEntries]

/-- Reading an anonymous entry in the settled table is entering it and settling it then. -/
theorem read_settle_anonymous (distinct : Distinct (F.settle levels).entries)
    (grown : (L.internAnonymous content immediate owner).2.entries <+: F.entries)
    (found : F.findAnonymous? content immediate = some id) :
    read (F.settle levels).entries owner (L.settle levels) (.lexical id)
      = (L.internAnonymous content immediate owner).2.settle levels := by
  obtain ⟨entry, stands, unnamed, rfl, rfl⟩ := exists_of_findAnonymous? found
  have settled : (F.settle levels).entries[id]? = some (settleEntry levels entry) := by
    rw [getElem?_settle, stands]
    rfl
  have visible : ¬ (settleEntry levels entry).named = true := by
    rw [settleEntry, unnamed]
    exact Bool.false_ne_true
  rw [read, settled]
  dsimp only
  rw [if_neg visible]
  rcases internAnonymous_cases L entry.content entry.immediate owner
    with ⟨place, known, same⟩ | ⟨new, size, name, added⟩
  · have known : ∃ place, (L.settle levels).findAnonymous? _ _ = some place :=
      findAnonymous?_settle known
    obtain ⟨place, known⟩ := known
    rw [same]
    exact congrArg Prod.snd (internAnonymous_of_known known)
  · refine settle_internAnonymous_of_new new ?_
    -- an equal entry before it would be a second one in the finished table
    by_contra known
    obtain ⟨place, known⟩ := Option.ne_none_iff_exists'.1 known
    obtain ⟨other, settledBefore, unnamed', same, flag⟩ := exists_of_findAnonymous? known
    rw [getElem?_settle] at settledBefore
    obtain ⟨original, before, rfl⟩ := Option.map_eq_some_iff.1 settledBefore
    have bound : place < L.entries.length := (List.getElem?_eq_some_iff.1 before).1
    rw [added] at grown
    obtain ⟨more, whole⟩ := grown
    have first : F.entries[place]? = some original := by
      rw [← whole, List.append_assoc, List.getElem?_append_left bound, before]
    have last : F.entries[L.entries.length]?
        = some ⟨name, false, entry.content, entry.immediate⟩ := by
      rw [← whole, List.append_assoc, List.getElem?_append_right (by omega)]
      simp
    have settledFirst : (F.settle levels).entries[place]? = some (settleEntry levels original) := by
      rw [getElem?_settle, first]
      rfl
    have settledLast : (F.settle levels).entries[L.entries.length]? = some (settleEntry levels
        ⟨name, false, entry.content, entry.immediate⟩) := by
      rw [getElem?_settle, last]
      rfl
    have twice := distinct.eq_of_alike settledFirst settledLast ⟨unnamed', rfl, same, flag⟩
    omega

/-- Reading a named entry in the settled table is entering it and settling it then. -/
theorem read_settle_named {n : Naming} (grown : (n.enterNamed L name).entries <+: F.entries)
    (found : F.findNamed? name = some id) :
    read (F.settle levels).entries owner (L.settle levels) (.lexical id)
      = (n.enterNamed L name).settle levels := by
  obtain ⟨entry, stands, named, rfl⟩ := exists_of_findNamed? found
  have settled : (F.settle levels).entries[id]? = some (settleEntry levels entry) := by
    rw [getElem?_settle, stands]
    rfl
  have visible : (settleEntry levels entry).named = true := named
  rw [read, settled]
  dsimp only
  rw [if_pos visible]
  cases known : L.findNamed? entry.name with
  | some place =>
    have before : (L.settle levels).findNamed? (settleEntry levels entry).name = some place := by
      rw [findNamed?_settle]
      exact known
    rw [internNamed_of_known before, Naming.enterNamed, internNamed_of_known known]
  | none =>
    have before : (L.settle levels).findNamed? (settleEntry levels entry).name = none := by
      rw [findNamed?_settle]
      exact known
    have place := findNamed?_of_grown grown (findNamed?_internNamed known)
    rw [internNamed_of_new known] at place
    obtain rfl : L.entries.length = id := Option.some.inj (place.symm.trans found)
    rw [Naming.enterNamed, internNamed_of_new known] at grown ⊢
    obtain ⟨more, whole⟩ := grown
    have same : entry = ⟨entry.name, true, n.namedContent entry.name,
        (n.tokenBody entry.name).2⟩ := by
      rw [← whole, entries_push, List.append_assoc, List.getElem?_append_right (by omega)] at stands
      simpa [eq_comm] using stands
    rw [internNamed_of_new before, same]
    apply eq_of_entries <;> simp [push, settle, settleEntry, ofEntries]

variable {n : Naming}

theorem read_settle_leaf (distinct : Distinct (F.settle levels).entries) {leaf : Rule}
    (isLeaf : leaf.IsLeaf) (placed : n.Placed F leaf)
    (grown : (n.enter owner L leaf).entries <+: F.entries) :
    readAll (F.settle levels).entries owner (L.settle levels) (n.lowered F leaf).symbols
      = (n.enter owner L leaf).settle levels := by
  cases leaf with
  | terminal t =>
    rw [Naming.enter] at grown ⊢
    rw [Naming.lowered, Naming.symbolIn]
    rw [Naming.Placed, Naming.symbolIn] at placed
    cases outside : n.outside? t with
    | some id => rfl
    | none =>
      rw [outside] at placed grown
      obtain ⟨id, found⟩ := Option.isSome_iff_exists.1 (by simpa using placed)
      rw [found]
      exact read_settle_anonymous distinct grown found
  | token content immediate =>
    rw [Naming.lowered, Naming.symbolIn]
    obtain ⟨id, found⟩ := Option.isSome_iff_exists.1 (by simpa [Naming.symbolIn] using placed.1)
    rw [found]
    exact read_settle_anonymous distinct grown found
  | symbol name =>
    rw [Naming.enter, Naming.enterName] at grown ⊢
    rw [Naming.lowered, Naming.symbolIn, Naming.nameIn]
    cases vars : n.vars.get? name with
    | some id => simp [Expr.symbols, readAll, read]
    | none =>
      dsimp only
      split <;> rename_i kind
      · obtain ⟨id, found⟩ := Option.isSome_iff_exists.1 (placed vars kind)
        rw [if_pos ⟨vars, kind⟩] at grown
        rw [if_pos ⟨rfl, kind⟩, found]
        exact read_settle_named grown found
      · rename_i other noToken
        rw [if_neg fun both => noToken (Option.some.inj (kind.symm.trans both.2))]
        rfl
      · rw [if_neg fun both => by simp [kind] at both]
        cases n.externalId? name true <;> rfl
  | _ => exact isLeaf.elim

mutual

/-- Reading what a rule was lowered to is entering its leaves. -/
theorem read_settle_rule (distinct : Distinct (F.settle levels).entries) {L : Lexicon} :
    (r : Rule) → (∀ leaf ∈ r.leaves, n.Placed F leaf) →
    (n.enterAll owner L r.leaves).entries <+: F.entries →
    readAll (F.settle levels).entries owner (L.settle levels) (n.lowered F r).symbols
      = (n.enterAll owner L r.leaves).settle levels
  | .terminal _, placed, grown | .symbol _, placed, grown | .token _ _, placed, grown =>
    read_settle_leaf distinct trivial (placed _ (by simp [Rule.leaves])) grown
  | .seq members, placed, grown => by
    rw [Naming.lowered, Expr.symbols_makeSeq]
    exact read_settle_rules distinct members placed grown
  | .choice members, placed, grown => by
    rw [Naming.lowered, readAll_makeChoice]
    exact read_settle_rules distinct members placed grown
  | .repeated content _, placed, grown | .optional content, placed, grown
  | .prec _ _ content, placed, grown | .aliased content _ _, placed, grown
  | .field _ content, placed, grown =>
    read_settle_rule distinct content placed grown

theorem read_settle_rules (distinct : Distinct (F.settle levels).entries) {L : Lexicon} :
    (rules : List Rule) → (∀ leaf ∈ Rule.leavesAll rules, n.Placed F leaf) →
    (n.enterAll owner L (Rule.leavesAll rules)).entries <+: F.entries →
    readAll (F.settle levels).entries owner (L.settle levels)
        (Expr.symbolsAll (n.loweredAll F rules))
      = (n.enterAll owner L (Rule.leavesAll rules)).settle levels
  | [], _, _ => rfl
  | r :: rs, placed, grown => by
    simp only [Rule.leavesAll, List.mem_append] at placed
    rw [Rule.leavesAll, Naming.enterAll, List.foldl_append] at grown ⊢
    have first := (n.prefix_enterAll owner _ (Rule.leavesAll rs)).trans grown
    rw [Naming.loweredAll, Expr.symbolsAll, readAll_append,
      read_settle_rule distinct r (fun leaf hl => placed leaf (.inl hl)) first]
    exact read_settle_rules distinct rs (fun leaf hl => placed leaf (.inr hl)) grown

end

theorem read_settle_body (distinct : Distinct (F.settle levels).entries) {info : SymbolInfo}
    (placed : n.BodyPlaced F info) (grown : (n.enterBody L info).entries <+: F.entries) :
    readAll (F.settle levels).entries info.name (L.settle levels) (n.bodyIn F info).symbols
      = (n.enterBody L info).settle levels := by
  unfold Naming.BodyPlaced at placed
  unfold Naming.enterBody at grown ⊢
  unfold Naming.bodyIn
  by_cases kind : info.kind = .token
  · rw [if_pos kind] at placed grown ⊢
    obtain ⟨id, found⟩ := Option.isSome_iff_exists.1 placed
    rw [if_pos kind, found]
    exact read_settle_named grown found
  · rw [if_neg kind] at placed grown ⊢
    rw [if_neg kind]
    exact read_settle_rule distinct _ placed grown

theorem read_settle_extras (distinct : Distinct (F.settle levels).entries) {extras : List Rule}
    {symbols : List Symbol} (each : List.Forall₂ (NormalForm.ExtraIn n F) extras symbols) {L : Lexicon}
    (grown : (extras.foldl n.enterExtra L).entries <+: F.entries) :
    readAll (F.settle levels).entries "extras" (L.settle levels) symbols
      = (extras.foldl n.enterExtra L).settle levels := by
  induction each generalizing L with
  | nil => rfl
  | @cons extra s extras symbols head _ ih =>
    have first : (n.enterAll "extras" L extra.leaves).entries <+: F.entries :=
      (Naming.prefix_foldl n.prefix_enterExtra (n.enterExtra L extra) extras).trans grown
    have one := read_settle_rule distinct extra head.2 first
    rw [head.1] at one
    rw [readAll, List.foldl_cons, List.foldl_cons]
    exact (congrArg (readAll _ "extras" · symbols) one).trans (ih grown)

theorem read_settle_word (distinct : Distinct (F.settle levels).entries) {word : Option String}
    (placed : ∀ name ∈ word, n.Placed F (.symbol name))
    (grown : (n.enterWord word L).entries <+: F.entries) :
    readAll (F.settle levels).entries "" (L.settle levels) (word.bind (n.nameIn F)).toList
      = (n.enterWord word L).settle levels := by
  cases word with
  | none => rfl
  | some name =>
    have isLeaf : (Rule.symbol name).IsLeaf := trivial
    have leaf : readAll (F.settle levels).entries "" (L.settle levels) _ = _ :=
      read_settle_leaf distinct isLeaf (placed name rfl) grown
    rw [Naming.lowered, Naming.symbolIn] at leaf
    rw [Option.bind_some]
    cases found : n.nameIn F name <;> rw [found] at leaf <;> exact leaf

def readVariables (R : List LexicalEntry) (L : Lexicon) (vars : List Variable) : Lexicon :=
  vars.foldl (fun L v => readAll R v.name L v.body.symbols) L

theorem read_settle_variables (distinct : Distinct (F.settle levels).entries)
    {inlined : OrderedMap String Inlined} {infos : List SymbolInfo}
    (placed : ∀ info ∈ infos, n.BodyPlaced F info)
    (grown : (infos.foldl n.enterBody L).entries <+: F.entries) :
    readVariables (F.settle levels).entries (L.settle levels) (infos.map (n.variableIn F inlined))
      = (infos.foldl n.enterBody L).settle levels := by
  induction infos generalizing L with
  | nil => rfl
  | cons info infos ih =>
    have first := (Naming.prefix_foldl n.prefix_enterBody (n.enterBody L info) infos).trans grown
    rw [readVariables, List.map_cons, List.foldl_cons, Naming.variableIn,
      read_settle_body distinct (placed info (by simp)) first]
    exact ih (fun i hi => placed i (by simp [hi])) grown

end Lexicon

def CompiledGrammar.readLexicon (c : CompiledGrammar) : Lexicon :=
  Lexicon.readAll c.lexicon ""
    (Lexicon.readAll c.lexicon "extras" (Lexicon.readVariables c.lexicon ∅ c.vars) c.extras)
    c.word.toList

namespace Grammar.Compiles

variable {g : Grammar} {settings : Settings} {start : String} {c : CompiledGrammar}

theorem lexicon_eq (h : g.Compiles settings start c) :
    c.lexicon = ((g.lexicon start).settle (g.levels settings)).entries := by
  rw [h.result]
  rfl

theorem partsIn (h : g.Compiles settings start c) :
    NormalForm.PartsIn g (g.naming start) (NormalForm.inlinedRules g.table)
      (NormalForm.extrasRun g g.table).1 (NormalForm.keptRules g.table start) start
      (g.lexicon start) (NormalForm.partsRun g g.table start).1 :=
  NormalForm.partsIn_partsRun (Symbols.keyed_resolve g) h.clean.normal

/-- The table before token rules that nothing refers to and hidden rules have been entered. -/
abbrev before (g : Grammar) (start : String) : Lexicon :=
  NormalForm.lexiconBeforeTokens g (g.naming start) (NormalForm.extrasRun g g.table).1
    (NormalForm.keptRules g.table start) ∅

theorem prefix_before (h : g.Compiles settings start c) :
    (before g start).entries <+: (g.lexicon start).entries := by
  have entered := @NormalForm.enters_partsRun g g.table start (Symbols.keyed_resolve g)
    (NormalForm.quiet_extrasRun h.clean.normal)
  have tokens := Naming.prefix_foldl (g.naming start).prefix_enterToken (before g start)
    g.table.infos
  have hidden := Naming.prefix_foldl (g.naming start).prefix_enterHidden
    (g.table.infos.foldl (g.naming start).enterToken (before g start))
    (NormalForm.expandedInfos start g.table.infos)
  rw [Grammar.lexicon, NormalForm.lexiconOf, entered.lexicon]
  exact tokens.trans hidden

/-- What the symbols of a compiled grammar read is what was entered for them. -/
theorem readLexicon_eq (h : g.Compiles settings start c) (distinct : Lexicon.Distinct c.lexicon) :
    c.readLexicon = (before g start).settle (g.levels settings) := by
  have parts := h.partsIn
  have word := h.prefix_before
  have extras := ((g.naming start).prefix_enterWord g.word _).trans word
  have vars := (Naming.prefix_foldl (g.naming start).prefix_enterExtra _ _).trans extras
  have vars_eq : Lexicon.readVariables c.lexicon ∅ c.vars = Lexicon.readVariables c.lexicon ∅
      (NormalForm.partsRun g g.table start).1.vars := by
    rw [h.result]
    simp only [CompiledGrammar.ofNormalForm, NormalForm.resolveLevels, Lexicon.readVariables,
      List.foldl_map, Expr.symbols_resolveLevels]
    rfl
  have extras_eq : c.extras = (NormalForm.partsRun g g.table start).1.extras := by
    rw [h.result]
    rfl
  have word_eq : c.word = g.word.bind ((g.naming start).nameIn (g.lexicon start)) := by
    rw [h.result]
    exact parts.word
  rw [h.lexicon_eq] at distinct
  rw [CompiledGrammar.readLexicon, vars_eq, extras_eq, word_eq, h.lexicon_eq, parts.vars]
  rw [show (∅ : Lexicon) = Lexicon.settle (g.levels settings) ∅ from rfl,
    Lexicon.read_settle_variables distinct parts.bodies vars,
    Lexicon.read_settle_extras distinct parts.extras extras,
    Lexicon.read_settle_word distinct parts.wordPlaced word]
  rfl

/-- The symbols of a compiled grammar make a part of its lexical table. -/
theorem prefix_readLexicon (h : g.Compiles settings start c)
    (distinct : Lexicon.Distinct c.lexicon) : c.readLexicon.entries <+: c.lexicon := by
  rw [h.readLexicon_eq distinct, h.lexicon_eq]
  exact h.prefix_before.map _

end Grammar.Compiles

end Productions
