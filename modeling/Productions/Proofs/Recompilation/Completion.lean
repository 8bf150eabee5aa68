import Productions.Proofs.Recompilation.Relowering

/-! The lexical table of the written grammar. The bodies, the extras and the word rule enter what
was read in the compiled grammar. All that is left then is named, and the token rules, which are
written in the order of their entries, enter it. -/
namespace Productions

open NormalForm

namespace Lexicon

variable {R : List LexicalEntry} {L : Lexicon}

theorem holds_readVariables {vars : List Variable} {v : Variable} (mem : v ∈ vars) {s : Symbol}
    (used : s ∈ v.body.symbols) : Holds R (readVariables R L vars) s := by
  induction vars generalizing L with
  | nil => cases mem
  | cons w vars ih =>
    rcases List.mem_cons.1 mem with rfl | mem
    · exact (holds_of_mem used).of_grown
        (Naming.prefix_foldl (fun L (v : Variable) => prefix_readAll R v.name L _) _ vars)
    · exact ih mem

def enterEntry (L : Lexicon) (entry : LexicalEntry) : Lexicon :=
  (L.internNamed entry.name entry.content entry.immediate).2

theorem enterEntry_of_known {entry : LexicalEntry} (known : (L.findNamed? entry.name).isSome) :
    L.enterEntry entry = L := by
  obtain ⟨id, known⟩ := Option.isSome_iff_exists.1 known
  rw [enterEntry, internNamed_of_known known]

theorem foldl_enterEntry_of_known {entries : List LexicalEntry}
    (known : ∀ entry ∈ entries, (L.findNamed? entry.name).isSome) :
    entries.foldl enterEntry L = L := by
  induction entries with
  | nil => rfl
  | cons entry entries ih =>
    rw [List.foldl_cons, enterEntry_of_known (known entry (by simp))]
    exact ih fun e he => known e (by simp [he])

theorem entries_foldl_enterEntry {entries : List LexicalEntry}
    (named : ∀ entry ∈ entries, entry.named = true) (once : NamedOnce (L.entries ++ entries)) :
    (entries.foldl enterEntry L).entries = L.entries ++ entries := by
  induction entries generalizing L with
  | nil => simp
  | cons entry entries ih =>
    have isNamed := named entry (by simp)
    have new : L.findNamed? entry.name = none := by
      refine findNamed?_eq_none_iff.2 fun e he named same => ?_
      exact (List.pairwise_append.1 once).2.2 e he entry (by simp) ⟨named, isNamed, same⟩
    have added : (L.enterEntry entry).entries = L.entries ++ [entry] := by
      rw [enterEntry, internNamed_of_new new, ← isNamed]
      rfl
    rw [List.foldl_cons, ih (fun e he => named e (by simp [he])) (by simpa [added] using once),
      added, List.append_assoc, List.singleton_append]

/-- Entering the named entries of a table that satisfy a test completes the table, if they are
known or new. -/
theorem entries_foldl_filter {p : LexicalEntry × Nat → Bool} (partly : L.entries <+: R)
    (once : NamedOnce R) (named : ∀ e ∈ R.zipIdx, p e = true → e.1.named = true)
    (rest : ∀ e ∈ R.zipIdx, L.size ≤ e.2 → p e = true) :
    (((R.zipIdx.filter p).map Prod.fst).foldl enterEntry L).entries = R := by
  obtain ⟨more, rfl⟩ := partly
  rw [List.zipIdx_append] at named rest ⊢
  have all_more : (more.zipIdx (0 + L.entries.length)).filter p
      = more.zipIdx (0 + L.entries.length) := by
    refine List.filter_eq_self.2 fun e he => rest e (List.mem_append_right _ he) ?_
    have := (List.mem_zipIdx he).1
    rw [Lexicon.size]
    omega
  have all_known : ((L.entries.zipIdx.filter p).map Prod.fst).foldl enterEntry L = L := by
    refine foldl_enterEntry_of_known fun entry mem => ?_
    obtain ⟨⟨_, id⟩, kept, rfl⟩ := List.mem_map.1 mem
    obtain ⟨listed, passes⟩ := List.mem_filter.1 kept
    have isNamed : _ = true := named _ (List.mem_append_left _ listed) passes
    exact isSome_findNamed?
      (List.mem_of_getElem? (List.mem_zipIdx_iff_getElem?.1 listed)) isNamed
  rw [List.filter_append, List.map_append, List.foldl_append, all_more, List.zipIdx_map_fst,
    all_known]
  refine entries_foldl_enterEntry (fun entry mem => ?_) once
  obtain ⟨place, bound, rfl⟩ := List.mem_iff_getElem.1 mem
  have listed : (more[place], 0 + L.entries.length + place)
      ∈ more.zipIdx (0 + L.entries.length) := by
    rw [List.mem_iff_getElem]
    exact ⟨place, by simpa using bound, by simp⟩
  refine named _ (List.mem_append_right _ listed) (rest _ (List.mem_append_right _ listed) ?_)
  rw [Lexicon.size]
  omega

end Lexicon

namespace CompiledGrammar

section Restorable

variable {c : CompiledGrammar} (arranged : c.Arranged) (restorable : c.Restorable)

include arranged restorable

theorem enterAll_symbolRules {symbols : List Symbol} (stands : ∀ s ∈ symbols, c.Stands s)
    (owner : String) (L : Lexicon) :
    (c.toGrammar.naming c.start).enterAll owner L (symbols.map c.symbolRule)
      = Lexicon.readAll c.lexicon owner L symbols := by
  induction symbols generalizing L with
  | nil => rfl
  | cons s symbols ih =>
    rw [List.map_cons, Naming.enterAll, List.foldl_cons,
      enter_symbolRule arranged restorable (stands s (by simp))]
    exact ih (fun t ht => stands t (by simp [ht])) _

theorem enterBody_eq_read {info : SymbolInfo} {v : Variable} (mem : v ∈ c.vars)
    (kept : KeptAs info v) (L : Lexicon) : (c.toGrammar.naming c.start).enterBody L info
      = Lexicon.readAll c.lexicon v.name L v.body.symbols := by
  obtain ⟨name, kind⟩ := kept
  rw [Naming.enterBody, name, kind]
  by_cases token : v.kind = .token
  · obtain ⟨id, entry, body, found, named, own⟩ := arranged.tokens v mem token
    rw [if_pos token, ← own, enterNamed_of_entry arranged restorable found named, body]
    simp only [Expr.symbols, Lexicon.readAll, List.foldl_cons, List.foldl_nil, Lexicon.read, found]
    exact (if_pos named).symm
  · obtain ⟨own, get, body⟩ := arranged.exists_of_mem_vars mem
    rw [if_neg token, bodyOf_eq_body arranged restorable get, body, body_variableRule token,
      leaves_body arranged mem token,
      enterAll_symbolRules arranged restorable (arranged.bodies v mem token)]

theorem enterBodies_eq_read {infos : List SymbolInfo} {vars : List Variable}
    (kept : List.Forall₂ KeptAs infos vars) (known : ∀ v ∈ vars, v ∈ c.vars) (L : Lexicon) :
    infos.foldl (c.toGrammar.naming c.start).enterBody L
      = Lexicon.readVariables c.lexicon L vars := by
  induction kept generalizing L with
  | nil => rfl
  | cons head _ ih =>
    rw [List.foldl_cons, Lexicon.readVariables, List.foldl_cons,
      enterBody_eq_read arranged restorable (known _ (by simp)) head]
    exact ih (fun w hw => known w (by simp [hw])) _

theorem enterExtras_eq_read (L : Lexicon) :
    c.toGrammar.extras.foldl (c.toGrammar.naming c.start).enterExtra L
      = Lexicon.readAll c.lexicon "extras" L c.extras := by
  have each : ∀ symbols, (∀ s ∈ symbols, c.Stands s) → ∀ L,
      (symbols.map c.symbolRule).foldl (c.toGrammar.naming c.start).enterExtra L
        = Lexicon.readAll c.lexicon "extras" L symbols := by
    intro symbols stands
    induction symbols with
    | nil => exact fun L => rfl
    | cons s symbols ih =>
      intro L
      rw [List.map_cons, List.foldl_cons, Naming.enterExtra, (stands s (by simp)).isLeaf.leaves_eq]
      rw [Naming.enterAll, List.foldl_cons, List.foldl_nil,
        enter_symbolRule arranged restorable (stands s (by simp))]
      exact ih (fun t ht => stands t (by simp [ht])) _
  exact each c.extras arranged.extras L

theorem enterWord_eq_read (L : Lexicon) :
    (c.toGrammar.naming c.start).enterWord c.toGrammar.word L
      = Lexicon.readAll c.lexicon "" L c.word.toList := by
  rw [toGrammar]
  dsimp only
  cases given : c.word with
  | none => rfl
  | some s =>
    obtain ⟨stands, rule⟩ := arranged.word s given
    have entered := enter_symbolRule arranged restorable stands "" L
    rw [rule] at entered
    exact entered

/-- The written grammar reads its lexical table as the compiled grammar does. -/
theorem before_eq_read : lexiconBeforeTokens c.toGrammar (c.toGrammar.naming c.start)
      (extrasRun c.toGrammar c.toGrammar.table).1 (keptRules c.toGrammar.table c.start) ∅
    = c.readLexicon := by
  obtain ⟨rest, -, kept, -, -⟩ := exists_infos_eq arranged restorable.kinds
  rw [lexiconBeforeTokens, extras_eq arranged restorable,
    enterBodies_eq_read arranged restorable kept (fun v mem => mem),
    enterExtras_eq_read arranged restorable, enterWord_eq_read arranged restorable]
  rfl

variable (partly : c.readLexicon.entries <+: c.lexicon)

include partly

omit arranged restorable in
theorem getElem?_of_read {place : Nat} {entry : LexicalEntry}
    (there : c.readLexicon.entries[place]? = some entry) :
    place < c.readLexicon.size ∧ c.lexicon[place]? = some entry := by
  obtain ⟨bound, rfl⟩ := List.getElem?_eq_some_iff.1 there
  exact ⟨bound, List.prefix_iff_getElem?.1 partly place bound⟩

omit arranged restorable partly in
theorem holds_of_variable {v : Variable} (mem : v ∈ c.vars) {s : Symbol}
    (used : s ∈ v.body.symbols) : Lexicon.Holds c.lexicon c.readLexicon s :=
  (Lexicon.holds_readVariables mem used).of_grown
    ((Lexicon.prefix_readAll _ _ _ _).trans (Lexicon.prefix_readAll _ _ _ _))

omit arranged restorable partly in
theorem holds_of_extra {s : Symbol} (used : s ∈ c.extras) :
    Lexicon.Holds c.lexicon c.readLexicon s :=
  (Lexicon.holds_of_mem used).of_grown (Lexicon.prefix_readAll _ _ _ _)

omit arranged in
/-- What is not read is named, since every anonymous entry is used. -/
theorem named_of_rest {id : Nat} {entry : LexicalEntry} (found : c.lexicon[id]? = some entry)
    (unread : c.readLexicon.size ≤ id) : entry.named = true := by
  by_contra isAnonymous
  have unnamed : entry.named = false := by simpa using isAnonymous
  have held : Lexicon.Holds c.lexicon c.readLexicon (.lexical id) := by
    rcases restorable.used id entry found unnamed with ⟨v, mem, used⟩ | used
    · exact holds_of_variable mem used
    · exact holds_of_extra used
  have known := held entry found
  rw [if_neg isAnonymous] at known
  obtain ⟨place, known⟩ := Option.isSome_iff_exists.1 known
  obtain ⟨other, there, unnamed', content, flag⟩ := Lexicon.exists_of_findAnonymous? known
  obtain ⟨bound, whole⟩ := getElem?_of_read partly there
  have same := restorable.distinct.eq_of_alike whole found ⟨unnamed', unnamed, content, flag⟩
  omega

omit restorable in
theorem read_of_wrapped {id : Nat} (wrapped : id ∈ c.vars.filterMap wrappedEntry?) :
    ∃ entry, c.lexicon[id]? = some entry ∧ (c.readLexicon.findNamed? entry.name).isSome
      ∧ id < c.readLexicon.size := by
  obtain ⟨v, mem, wraps⟩ := List.mem_filterMap.1 wrapped
  have kind : v.kind = .token := by
    by_contra other
    rw [Arranged.wraps_none other] at wraps
    cases wraps
  obtain ⟨place, entry, wraps', body, found, named, -⟩ := arranged.exists_wrapped mem kind
  obtain rfl := Option.some.inj (wraps.symm.trans wraps')
  have used : .lexical id ∈ v.body.symbols := by
    rw [body]
    exact List.mem_singleton_self _
  have held := holds_of_variable mem used
  have known := held entry found
  rw [if_pos named] at known
  refine ⟨entry, found, known, ?_⟩
  obtain ⟨place, known⟩ := Option.isSome_iff_exists.1 known
  obtain ⟨other, there, named', name⟩ := Lexicon.exists_of_findNamed? known
  obtain ⟨bound, whole⟩ := getElem?_of_read partly there
  have same := arranged.once.eq_of_namesakes whole found ⟨named', named, name⟩
  omega

/-- The token rule of a variable has been entered with its body. -/
theorem enterToken_of_kept {info : SymbolInfo} (mem : info ∈ keptRules c.toGrammar.table c.start) :
    (c.toGrammar.naming c.start).enterToken c.readLexicon info = c.readLexicon := by
  obtain ⟨rest, -, kept, -, -⟩ := exists_infos_eq arranged restorable.kinds
  obtain ⟨place, bound, rfl⟩ := List.mem_iff_getElem.1 mem
  obtain ⟨name, kind⟩ := kept.get bound (kept.length_eq ▸ bound)
  have known := List.getElem_mem (kept.length_eq ▸ bound : place < c.vars.length)
  rw [List.get_eq_getElem, List.get_eq_getElem] at name kind
  rw [Naming.enterToken]
  split <;> rename_i token
  · rw [kind] at token
    obtain ⟨id, entry, wraps, -, found, -, own⟩ := arranged.exists_wrapped known token
    obtain ⟨entry', found', read, -⟩ := read_of_wrapped arranged partly
      (List.mem_filterMap.2 ⟨_, known, wraps⟩)
    obtain rfl := Option.some.inj (found.symm.trans found')
    obtain ⟨id', read⟩ := Option.isSome_iff_exists.1 read
    rw [name, ← own, Naming.enterNamed, Lexicon.internNamed_of_known read]
  · rfl

/-- Token rules complete the lexical table. -/
theorem entries_enterTokens :
    (c.toGrammar.table.infos.foldl (c.toGrammar.naming c.start).enterToken c.readLexicon).entries
      = c.lexicon := by
  obtain ⟨rest, split, -, names, tokens⟩ := exists_infos_eq arranged restorable.kinds
  have kept (infos : List SymbolInfo)
      (sub : ∀ info ∈ infos, info ∈ keptRules c.toGrammar.table c.start) :
      infos.foldl (c.toGrammar.naming c.start).enterToken c.readLexicon = c.readLexicon := by
    induction infos with
    | nil => rfl
    | cons info infos ih =>
      rw [List.foldl_cons,
        enterToken_of_kept arranged restorable partly (sub info (by simp))]
      exact ih fun i hi => sub i (by simp [hi])
  have named (L : Lexicon) : rest.foldl (c.toGrammar.naming c.start).enterToken L
      = (rest.map SymbolInfo.name).foldl (c.toGrammar.naming c.start).enterNamed L := by
    rw [List.foldl_map]
    refine List.foldl_ext _ _ L fun L info mem => ?_
    rw [Naming.enterToken, if_pos (tokens info mem)]
  have written (L : Lexicon) :
      (c.tokenRules.map Definition.name).foldl (c.toGrammar.naming c.start).enterNamed L
        = ((c.lexicon.zipIdx.filter fun e =>
            e.1.named && !(c.vars.filterMap wrappedEntry?).contains e.2).map Prod.fst).foldl
          Lexicon.enterEntry L := by
    rw [tokenRules, List.map_map, List.foldl_map, List.foldl_map]
    refine List.foldl_ext _ _ L fun L e mem => ?_
    obtain ⟨listed, passes⟩ := List.mem_filter.1 mem
    rw [Bool.and_eq_true] at passes
    exact enterNamed_of_entry arranged restorable (List.mem_zipIdx_iff_getElem?.1 listed) passes.1 L
  rw [split, List.foldl_append, kept _ (fun info mem => mem), named, names, written]
  refine Lexicon.entries_foldl_filter partly arranged.once (fun e _ passes => ?_)
    fun e listed unread => ?_
  · rw [Bool.and_eq_true] at passes
    exact passes.1
  · have found := List.mem_zipIdx_iff_getElem?.1 listed
    rw [named_of_rest restorable partly found unread, Bool.true_and, Bool.not_eq_true',
      List.contains_eq_mem, decide_eq_false_iff_not]
    intro wrapped
    obtain ⟨-, -, -, bound⟩ := read_of_wrapped arranged partly wrapped
    omega

omit partly in
theorem quiet_lowering : Quiet c.toGrammar (c.toGrammar.naming c.start)
    (extrasRun c.toGrammar c.toGrammar.table).1 (keptRules c.toGrammar.table c.start) c.start where
  bodies info mem := by
    obtain ⟨rest, -, kept, -, -⟩ := exists_infos_eq arranged restorable.kinds
    have get := get?_of_mem_keptRules (Symbols.keyed_resolve c.toGrammar) mem
    obtain ⟨place, bound, rfl⟩ := List.mem_iff_getElem.1 mem
    obtain ⟨name, kind⟩ := kept.get bound (kept.length_eq ▸ bound)
    have known := List.getElem_mem (kept.length_eq ▸ bound : place < c.vars.length)
    rw [List.get_eq_getElem, List.get_eq_getElem] at name kind
    rw [Naming.QuietBody]
    split <;> rename_i token
    · refine namedReports_eq_nil arranged restorable ?_
      rw [SymbolTable.kind?, get, Option.map_some, token]
    · obtain ⟨own, get', body⟩ := arranged.exists_of_mem_vars known
      rw [kind] at token
      rw [name, bodyOf_eq_body arranged restorable get', body, body_variableRule token,
        leaves_body arranged known token]
      intro leaf hl
      obtain ⟨s, hs, rfl⟩ := List.mem_map.1 hl
      exact silent_symbolRule arranged restorable (arranged.bodies _ known token s hs)
  extras r mem := by
    rw [extras_eq arranged restorable] at mem
    obtain ⟨s, hs, rfl⟩ := List.mem_map.1 mem
    have stands := arranged.extras s hs
    refine ⟨resolves_symbolRule arranged restorable stands, fun leaf hl => ?_⟩
    rw [stands.isLeaf.leaves_eq, List.mem_singleton] at hl
    rw [hl]
    exact silent_symbolRule arranged restorable stands
  word name _ kind := namedReports_eq_nil arranged restorable kind
  tokens info mem token := by
    refine namedReports_eq_nil arranged restorable ?_
    rw [SymbolTable.kind?, (Symbols.keyed_resolve c.toGrammar).get?_name mem, Option.map_some,
      token]
  hidden info mem := by
    have none := expandedInfos_eq_nil arranged restorable.kinds
    rw [show expandedInfos c.start (c.toGrammar.naming c.start).table.infos = [] from none] at mem
    cases mem

/-- The written grammar has a normal form without reports, over the same lexical table. -/
theorem normal_toGrammar : (ofGrammar c.toGrammar c.toGrammar.table c.start).2 = []
    ∧ (c.toGrammar.lexicon c.start).entries = c.lexicon := by
  have inlining := quiet_inlining arranged restorable
  have entered := @enters_partsRun c.toGrammar c.toGrammar.table c.start
    (Symbols.keyed_resolve c.toGrammar) inlining
  refine ⟨?_, ?_⟩
  · rw [ofGrammar_eq, inlining, entered.reports (quiet_lowering arranged restorable)]
    rfl
  · rw [Grammar.lexicon, lexiconOf, entered.lexicon, expandedInfos_eq_nil arranged restorable.kinds,
      List.foldl_nil]
    refine Eq.trans ?_ (entries_enterTokens arranged restorable partly)
    rw [← before_eq_read arranged restorable]
    rfl

end Restorable

end CompiledGrammar

end Productions
