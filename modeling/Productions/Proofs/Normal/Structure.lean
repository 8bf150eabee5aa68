import Productions.Proofs.Inlining.Bodies
import Productions.Proofs.Lowering.Entries
import Productions.Proofs.Symbols.Table

/-! The structure of a normal form that is reached without reports. Every rule has an inlined body,
and every part of the normal form is read off the finished lexical table. -/
namespace Productions.NormalForm

open Inlining Lowering

variable (g : Grammar) (t : SymbolTable) (start : String)

def inlineRun : List (String × Inlined) × Inlining := (inlineRules t t.infos).run Inlining.start

def extrasRun : List Rule × Inlining := (inlineExtras t g.extras).run (inlineRun t).2

def expandedIn : OrderedMap String Inlined := (extrasRun g t).2.expanded

def inlinedRules : OrderedMap String Inlined := OrderedMap.ofList (inlineRun t).1

def namingOf : Naming where
  table := t
  bodies := (inlinedRules t).mapValues fun _ i => i.rule
  vars := OrderedMap.ofList ((keptRules t start).zipIdx.map fun k => (k.1.name, k.2))
  externals := g.externals.filterMap ExternalToken.ofRule?

def partsRun : Lowered × Lowering :=
  (lowerParts g (namingOf g t start) (inlinedRules t) (extrasRun g t).1 (keptRules t start)
    start).run Lowering.start

def lexiconOf : Lexicon := (partsRun g t start).2.lexicon

theorem ofGrammar_eq : ofGrammar g t start =
    ({ name := g.name
       vars := (partsRun g t start).1.vars
       lexicon := (lexiconOf g t start).entries
       externals := (namingOf g t start).externals
       extras := (partsRun g t start).1.extras
       word := (partsRun g t start).1.word
       expansions := OrderedMap.ofList (partsRun g t start).1.expansions
       conflicts := g.conflicts
       supertypes := supertypesOf g t
       precedences := g.precedences
       table := t }, (extrasRun g t).2.reports ++ (partsRun g t start).2.reports) := rfl

variable {g t start}

theorem isInlined_iff {name : String} :
    t.isInlined name = true ↔ ∃ info, t.get? name = some info ∧ info.kind = .hidden := by
  simp only [SymbolTable.isInlined, SymbolTable.kind?, beq_iff_eq, Option.map_eq_some_iff]

section Inlined

variable (keyed : t.Keyed)

include keyed

theorem inlineRun_run : (inlineRun t).1.map Prod.fst = t.infos.map SymbolInfo.name
    ∧ Later t [] Inlining.start (inlineRun t).2
    ∧ ((inlineRun t).2.reports = [] → InlinesRules t (inlineRun t).2.expanded (inlineRun t).1) := by
  obtain ⟨names, later, right⟩ := inlineRules_run (fun _ => keyed.get?_name)
    (show (inlineRules t t.infos).run Inlining.start = ((inlineRun t).1, (inlineRun t).2) from rfl)
  exact ⟨names, later, fun none => right none (.at_start t)⟩

omit keyed in
theorem extrasRun_run : Later t [] (inlineRun t).2 (extrasRun g t).2
    ∧ ((extrasRun g t).2.reports = [] → Ready t [] (inlineRun t).2 →
      List.Forall₂ (fun r rule => ∃ used, InlinedBy t (expandedIn g t) r ⟨rule, used⟩) g.extras
        (extrasRun g t).1) :=
  inlineExtras_run
    (show (inlineExtras t g.extras).run (inlineRun t).2 = ((extrasRun g t).1, (extrasRun g t).2)
      from rfl)

theorem inlinesRules (quiet : (extrasRun g t).2.reports = []) :
    InlinesRules t (expandedIn g t) (inlineRun t).1 := by
  obtain ⟨-, later, right⟩ := inlineRun_run keyed
  obtain ⟨laterExtras, -⟩ := extrasRun_run (g := g) (t := t)
  have quietRules := laterExtras.silent quiet
  exact (right quietRules).extend
    (laterExtras.grows quiet (later.ready quietRules (.at_start t)))

theorem extras_inlined (quiet : (extrasRun g t).2.reports = []) :
    List.Forall₂ (fun r rule => ∃ used, InlinedBy t (expandedIn g t) r ⟨rule, used⟩) g.extras
      (extrasRun g t).1 := by
  obtain ⟨-, later, -⟩ := inlineRun_run keyed
  obtain ⟨laterExtras, right⟩ := extrasRun_run (g := g) (t := t)
  exact right quiet (later.ready (laterExtras.silent quiet) (.at_start t))

theorem nodup_inlineRun : ((inlineRun t).1.map Prod.fst).Nodup := by
  rw [(inlineRun_run keyed).1, keyed.names_eq]
  exact t.rules.nodup_keys

theorem exists_inlined (quiet : (extrasRun g t).2.reports = []) {name : String}
    {info : SymbolInfo} (get : t.get? name = some info) :
    ∃ inlined, (inlinedRules t).get? name = some inlined
      ∧ InlinedBy t (expandedIn g t) info.body.canonicalize inlined
      ∧ (t.isInlined name = true → (expandedIn g t).get? name = some inlined) := by
  have mem : name ∈ (inlineRun t).1.map Prod.fst := by
    rw [(inlineRun_run keyed).1, keyed.names_eq]
    exact OrderedMap.get?_isSome_iff.1 (by rw [← SymbolTable.get?, get]; rfl)
  obtain ⟨⟨_, inlined⟩, listed, rfl⟩ := List.mem_map.1 mem
  obtain ⟨info', get', by_, entry⟩ := (inlinesRules keyed quiet).each _ inlined listed
  obtain rfl := Option.some.inj (get'.symm.trans get)
  refine ⟨inlined, ?_, by_, entry⟩
  rw [inlinedRules, OrderedMap.get?_ofList (nodup_inlineRun keyed)]
  exact (OrderedMap.get?_eq_some_iff (m := ⟨(inlineRun t).1, nodup_inlineRun keyed⟩)).2 listed

theorem expanded_of_isInlined (quiet : (extrasRun g t).2.reports = []) {name : String}
    (hidden : t.isInlined name = true) : Expanded t (expandedIn g t) name := by
  obtain ⟨info, get, -⟩ := exists_of_isInlined hidden
  obtain ⟨inlined, -, by_, entry⟩ := exists_inlined keyed quiet get
  exact .intro get (entry hidden) by_.rule by_.used by_.inner

theorem get?_inlined_eq_none {name : String} (get : t.get? name = none) :
    (inlinedRules t).get? name = none := by
  rw [inlinedRules, OrderedMap.get?_ofList (nodup_inlineRun keyed), List.lookup_eq_none_iff]
  intro e mem
  have known : e.1 ∈ t.rules.keys := by
    rw [← keyed.names_eq, ← (inlineRun_run keyed).1]
    exact List.mem_map_of_mem mem
  have unknown : name ∉ t.rules.keys := OrderedMap.get?_eq_none_iff.1 get
  simp only [bne_iff_ne, ne_eq]
  rintro rfl
  exact unknown known

omit keyed in
theorem get?_bodies (name : String) :
    (namingOf g t start).bodies.get? name = ((inlinedRules t).get? name).map Inlined.rule :=
  OrderedMap.get?_mapValues _ _ _

omit keyed in
theorem bodyOf_eq {name : String} {inlined : Inlined}
    (get : (inlinedRules t).get? name = some inlined) :
    (namingOf g t start).bodyOf name = inlined.rule := by
  rw [Naming.bodyOf, OrderedMap.getD, get?_bodies, get]
  rfl

theorem plain_namingOf (quiet : (extrasRun g t).2.reports = []) :
    (namingOf g t start).Plain := by
  intro name
  cases get : t.get? name with
  | none =>
    rw [Naming.bodyOf, OrderedMap.getD, get?_bodies, get?_inlined_eq_none keyed get]
    rfl
  | some info =>
    obtain ⟨inlined, entry, by_, -⟩ := exists_inlined keyed quiet get
    rw [bodyOf_eq entry, by_.rule]
    exact Rule.isPlain_canonicalize _

theorem plain_extras (quiet : (extrasRun g t).2.reports = []) :
    ∀ extra ∈ (extrasRun g t).1, extra.isPlain = true := by
  have extras := extras_inlined keyed quiet
  generalize (extrasRun g t).1 = rules at extras
  generalize g.extras = sources at extras
  induction extras with
  | nil => simp
  | cons head _ ih =>
    intro extra mem
    rcases List.mem_cons.1 mem with rfl | mem
    · obtain ⟨used, by_⟩ := head
      rw [show extra = _ from by_.rule]
      exact Rule.isPlain_canonicalize _
    · exact ih extra mem

end Inlined

section Kept

variable (keyed : t.Keyed) (known : t.contains start = true)

include keyed

theorem get?_of_mem_keptRules {info : SymbolInfo} (mem : info ∈ keptRules t start) :
    t.get? info.name = some info := by
  rcases List.mem_append.1 mem with mem | mem
  · rw [Option.mem_toList] at mem
    rwa [keyed.name_eq mem]
  · exact keyed.get?_name (List.mem_filter.1 mem).1

theorem nodup_keptRules : ((keptRules t start).map SymbolInfo.name).Nodup := by
  rw [keptRules, List.map_append]
  refine List.nodup_append.2 ⟨?_, ?_, ?_⟩
  · cases t.get? start <;> simp
  · refine List.Nodup.sublist (List.Sublist.map _ List.filter_sublist) ?_
    rw [keyed.names_eq]
    exact t.rules.nodup_keys
  · rintro name hname other hother rfl
    obtain ⟨info, mem, rfl⟩ := List.mem_map.1 hname
    obtain ⟨_, mem', same⟩ := List.mem_map.1 hother
    rw [Option.mem_toList] at mem
    have apart := (List.mem_filter.1 mem').2
    rw [same, keyed.name_eq mem] at apart
    simp at apart

theorem get?_vars (name : String) (id : Nat) :
    (namingOf g t start).vars.get? name = some id
      ↔ ∃ info, (keptRules t start)[id]? = some info ∧ info.name = name := by
  have names : ((keptRules t start).zipIdx.map fun k => (k.1.name, k.2)).map Prod.fst
      = (keptRules t start).map SymbolInfo.name := by
    conv_rhs => rw [← List.zipIdx_map_fst 0 (keptRules t start), List.map_map]
    rw [List.map_map]
    rfl
  have nodup : ((keptRules t start).map SymbolInfo.name).Nodup := nodup_keptRules keyed
  rw [← names] at nodup
  have lookup : (namingOf g t start).vars.get? name
      = OrderedMap.get? ⟨(keptRules t start).zipIdx.map fun k => (k.1.name, k.2), nodup⟩ name :=
    OrderedMap.get?_ofList nodup name
  rw [lookup, OrderedMap.get?_eq_some_iff]
  simp only [List.mem_map, Prod.mk.injEq]
  constructor
  · rintro ⟨⟨info, _⟩, mem, rfl, rfl⟩
    exact ⟨info, List.mem_zipIdx_iff_getElem?.1 mem, rfl⟩
  · rintro ⟨info, entry, rfl⟩
    exact ⟨(info, id), List.mem_zipIdx_iff_getElem?.2 entry, rfl, rfl⟩

theorem exists_of_isKept {name : String} {info : SymbolInfo} (get : t.get? name = some info)
    (kept : isKept info.kind = true) :
    ∃ id, (namingOf g t start).vars.get? name = some id := by
  have mem : info ∈ keptRules t start := by
    by_cases first : name = start
    · exact List.mem_append.2 (.inl (by rw [← first, get]; simp))
    · refine List.mem_append.2 (.inr (List.mem_filter.2
        ⟨SymbolTable.mem_infos.2 ⟨name, get⟩, ?_⟩))
      rw [Bool.and_eq_true, keyed.name_eq get]
      exact ⟨kept, bne_iff_ne.2 first⟩
  obtain ⟨id, entry⟩ := List.getElem?_of_mem mem
  exact ⟨id, (get?_vars keyed name id).2 ⟨info, entry, keyed.name_eq get⟩⟩

end Kept

section Quiet

variable (keyed : t.Keyed) (quiet : (ofGrammar g t start).2 = [])

include keyed quiet

omit keyed in
theorem quiet_extrasRun : (extrasRun g t).2.reports = [] := (List.append_eq_nil_iff.1 quiet).1

omit keyed in
theorem quiet_partsRun : (partsRun g t start).2.reports = [] := (List.append_eq_nil_iff.1 quiet).2

omit quiet in
theorem steps_partsRun (quiet : (extrasRun g t).2.reports = []) :
    Steps (namingOf g t start) Lowering.start (partsRun g t start).2
      ∧ ((partsRun g t start).2.reports = [] →
        PartsIn g (namingOf g t start) (inlinedRules t) (extrasRun g t).1 (keptRules t start) start
          (lexiconOf g t start) (partsRun g t start).1) :=
  lowerParts_run (plain_namingOf keyed quiet) (plain_extras keyed quiet)
    (fun _ => get?_of_mem_keptRules keyed) (fun _ => keyed.get?_name)
    (show (lowerParts g (namingOf g t start) (inlinedRules t) (extrasRun g t).1 (keptRules t start)
      start).run Lowering.start = ((partsRun g t start).1, (partsRun g t start).2) from rfl)

omit quiet in
theorem enters_partsRun (quiet : (extrasRun g t).2.reports = []) :
    Enters Lowering.start (partsRun g t start).2
      (fun L => (expandedInfos start t.infos).foldl (namingOf g t start).enterHidden
        (t.infos.foldl (namingOf g t start).enterToken
          (lexiconBeforeTokens g (namingOf g t start) (extrasRun g t).1 (keptRules t start) L)))
      (Quiet g (namingOf g t start) (extrasRun g t).1 (keptRules t start) start) :=
  lowerParts_enters (plain_namingOf keyed quiet) (plain_extras keyed quiet)
    (show (lowerParts g (namingOf g t start) (inlinedRules t) (extrasRun g t).1 (keptRules t start)
      start).run Lowering.start = ((partsRun g t start).1, (partsRun g t start).2) from rfl)

theorem partsIn_partsRun : PartsIn g (namingOf g t start) (inlinedRules t) (extrasRun g t).1
    (keptRules t start) start (lexiconOf g t start) (partsRun g t start).1 :=
  (steps_partsRun keyed (quiet_extrasRun quiet)).2 (quiet_partsRun quiet)

theorem entered_lexiconOf : (namingOf g t start).Entered (lexiconOf g t start) :=
  (steps_partsRun keyed (quiet_extrasRun quiet)).1.entered (quiet_partsRun quiet)
    (entered_start _)

omit quiet in
theorem eq_nil_of_hasErrors (none : Diagnostic.hasErrors (ofGrammar g t start).2 = false) :
    (ofGrammar g t start).2 = [] := by
  rw [ofGrammar_eq, Diagnostic.hasErrors_append, Bool.or_eq_false_iff] at none
  obtain ⟨noneInlining, noneLowering⟩ := none
  have inlining : (extrasRun g t).2.reports = [] := by
    obtain ⟨-, later, -⟩ := inlineRun_run keyed
    obtain ⟨laterExtras, -⟩ := extrasRun_run (g := g) (t := t)
    exact Diagnostic.eq_nil_of_hasErrors
      (laterExtras.errors (later.errors (by simp [Inlining.start]))) noneInlining
  have lowering : (partsRun g t start).2.reports = [] :=
    Diagnostic.eq_nil_of_hasErrors
      ((steps_partsRun keyed inlining).1.errors (by simp [Lowering.start])) noneLowering
  rw [ofGrammar_eq, inlining, lowering]
  rfl

end Quiet

end Productions.NormalForm
