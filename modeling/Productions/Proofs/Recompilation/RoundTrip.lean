import Productions.Proofs.Normal.Agreement
import Productions.Proofs.Recompilation.Completion
import Productions.Proofs.Validity

/-! Compiling the written grammar. Under the conditions on the compiled grammar it passes every
stage again, and its normal form agrees with the one it was written for. -/
namespace Productions

/-! With the lexical table complete, every written body is lowered to the body it was written for. -/

open NormalForm

namespace CompiledGrammar

section Restorable

variable {c : CompiledGrammar} (arranged : c.Arranged) (restorable : c.Restorable)
  (partly : c.readLexicon.entries <+: c.lexicon)

include arranged restorable partly

theorem partsIn_toGrammar : PartsIn c.toGrammar (c.toGrammar.naming c.start)
    (inlinedRules c.toGrammar.table) (extrasRun c.toGrammar c.toGrammar.table).1
    (keptRules c.toGrammar.table c.start) c.start (c.toGrammar.lexicon c.start)
    (partsRun c.toGrammar c.toGrammar.table c.start).1 :=
  partsIn_partsRun (Symbols.keyed_resolve c.toGrammar)
    (normal_toGrammar arranged restorable partly).1

theorem bodyIn_toGrammar {info : SymbolInfo} {v : Variable} (mem : v ∈ c.vars)
    (kept : KeptAs info v) :
    (c.toGrammar.naming c.start).bodyIn (c.toGrammar.lexicon c.start) info = v.body := by
  have complete := (normal_toGrammar arranged restorable partly).2
  obtain ⟨name, kind⟩ := kept
  rw [Naming.bodyIn, name, kind]
  by_cases token : v.kind = .token
  · obtain ⟨id, entry, body, found, named, own⟩ := arranged.tokens v mem token
    rw [if_pos token, ← own,
      Lexicon.findNamed?_of_namedOnce (complete ▸ arranged.once) (complete ▸ found) named, body]
    rfl
  · obtain ⟨own, get, body⟩ := arranged.exists_of_mem_vars mem
    rw [if_neg token, bodyOf_eq_body arranged restorable get, body, body_variableRule token]
    exact lowered_exprRule arranged restorable complete (restorable.bodies v mem)
      (arranged.bodies v mem token)

/-- The variables of the written grammar are those of the compiled one, up to what was inlined into
them and their fields. -/
theorem vars_toGrammar : List.Forall₂
    (fun (w v : Variable) => w.name = v.name ∧ w.kind = v.kind ∧ w.body = v.body)
    (c.toGrammar.normalForm c.start).vars c.vars := by
  obtain ⟨rest, -, kept, -, -⟩ := exists_infos_eq arranged restorable.kinds
  have vars : (c.toGrammar.normalForm c.start).vars = _ :=
    (partsIn_toGrammar arranged restorable partly).vars
  rw [vars, List.forall₂_map_left_iff]
  have known := (List.forall₂_and_left c.vars _).2 ⟨fun v mem => mem, kept.flip⟩
  refine known.flip.imp fun info v both => ?_
  obtain ⟨mem, name, kind⟩ := both
  exact ⟨name, kind, bodyIn_toGrammar arranged restorable partly mem ⟨name, kind⟩⟩

theorem extras_toGrammar : (c.toGrammar.normalForm c.start).extras = c.extras := by
  have lowered : List.Forall₂ (ExtraIn (c.toGrammar.naming c.start)
      (c.toGrammar.lexicon c.start)) (extrasRun c.toGrammar c.toGrammar.table).1
      (c.toGrammar.normalForm c.start).extras :=
    (partsIn_toGrammar arranged restorable partly).extras
  rw [extras_eq arranged restorable, show c.toGrammar.extras = c.extras.map c.symbolRule from rfl,
    List.forall₂_map_left_iff] at lowered
  have each := (List.forall₂_and_left c.extras _).2 ⟨fun s mem => mem, lowered⟩
  refine (List.forall₂_eq_eq_eq ▸ each.imp fun s t both => ?_ : c.extras = _).symm
  obtain ⟨mem, lowered, -⟩ := both
  rw [lowered_symbolRule arranged restorable (normal_toGrammar arranged restorable partly).2
    (arranged.extras s mem)] at lowered
  exact Expr.symbol.inj lowered

theorem word_toGrammar : (c.toGrammar.normalForm c.start).word = c.word := by
  have lowered : (c.toGrammar.normalForm c.start).word = c.toGrammar.word.bind
      ((c.toGrammar.naming c.start).nameIn (c.toGrammar.lexicon c.start)) :=
    (partsIn_toGrammar arranged restorable partly).word
  have written : c.toGrammar.word = c.word.map c.symbolName := rfl
  rw [lowered, written]
  cases given : c.word with
  | none => rfl
  | some s =>
    obtain ⟨stands, rule⟩ := arranged.word s given
    have found := symbolIn_symbolRule arranged restorable
      (normal_toGrammar arranged restorable partly).2 stands
    rw [rule] at found
    exact found

theorem expansions_toGrammar :
    (c.toGrammar.normalForm c.start).expansions.entries = [] := by
  have lowered : (partsRun c.toGrammar c.toGrammar.table c.start).1.expansions = _ :=
    (partsIn_toGrammar arranged restorable partly).expansions
  have written : (c.toGrammar.normalForm c.start).expansions = OrderedMap.ofList
    (partsRun c.toGrammar c.toGrammar.table c.start).1.expansions := rfl
  rw [written, lowered, show expandedInfos c.start (c.toGrammar.naming c.start).table.infos = []
    from expandedInfos_eq_nil arranged restorable.kinds]
  rfl

end Restorable

end CompiledGrammar

namespace CompiledGrammar

/-- What compiling a grammar again has to bring back. -/
structure Restores (c d : CompiledGrammar) : Prop where
  shapes : d.vars.map Variable.shape = c.vars.map Variable.shape
  fields : d.vars.map Variable.fields = c.vars.map Variable.fields
  lexicon : d.lexicon = c.lexicon
  externals : d.externals = c.externals
  extras : d.extras = c.extras
  word : d.word = c.word
  precedence : d.precedence = c.precedence

end CompiledGrammar

namespace Grammar.Compiles

variable {g : Grammar} {settings : Settings} {start : String} {c : CompiledGrammar}

theorem shapes (h : g.Compiles settings start c) :
    c.vars.map Variable.shape = (g.settled settings start).vars.map Variable.shape := by
  rw [h.result, CompiledGrammar.ofNormalForm, List.map_map]
  rfl

theorem fields (h : g.Compiles settings start c) : c.vars.map Variable.fields
    = (g.settled settings start).bodies.map (g.settled settings start).fieldsOf := by
  rw [h.result, CompiledGrammar.ofNormalForm, List.map_map, bodies, List.map_map]
  rfl

/-- What is compiled from normal forms that agree is the same. -/
theorem restores {g' : Grammar} {settings' : Settings} {start' : String} {d : CompiledGrammar}
    (h : g.Compiles settings start c) (h' : g'.Compiles settings' start' d)
    (agrees : (g'.settled settings' start').Agrees (g.settled settings start))
    (extras : d.extras = c.extras) (word : d.word = c.word) : c.Restores d where
  shapes := by rw [h.shapes, h'.shapes, agrees.shapes]
  fields := by
    rw [h.fields, h'.fields, agrees.bodies]
    exact List.map_congr_left fun e _ => agrees.fieldsOf e
  lexicon := by
    rw [h.result, h'.result]
    exact agrees.lexicon
  externals := by
    rw [h.result, h'.result]
    exact agrees.externals
  extras := extras
  word := word
  precedence := by
    rw [h.result, h'.result]
    exact agrees.tables

end Grammar.Compiles

namespace CompiledGrammar

variable {c : CompiledGrammar}

/-- The start rule of a compiled grammar is the first rule that is written. -/
theorem startRule_toGrammar (arranged : c.Arranged) :
    startRule c.toGrammar .default c.toGrammar.table = .ok c.start := by
  obtain ⟨v, first, name⟩ := arranged.starts
  have head : (c.toGrammar.table.infos.head?).map SymbolInfo.name = some c.start := by
    rw [← List.head?_map, Symbols.names_resolve arranged.nodup_rules, toGrammar, List.map_append,
      List.map_map, List.head?_append, List.head?_map, first, ← name]
    rfl
  obtain ⟨info, found, same⟩ := Option.map_eq_some_iff.1 head
  simp only [startRule, Settings.default, found, pure, Except.pure, bind, Except.bind, same]
  rfl

section Restorable

variable (arranged : c.Arranged) (restorable : c.Restorable)
  (partly : c.readLexicon.entries <+: c.lexicon)

include arranged restorable partly

theorem shapes_settled : (c.toGrammar.settled .default c.start).vars.map Variable.shape
    = c.vars.map Variable.shape := by
  have known := (List.forall₂_and_left c.vars _).2
    ⟨fun v mem => mem, (vars_toGrammar arranged restorable partly).flip⟩
  rw [Grammar.settled, NormalForm.resolveLevels, List.map_map]
  refine List.forall₂_eq_eq_eq ▸ List.forall₂_map_left_iff.2 (List.forall₂_map_right_iff.2
    (known.flip.imp fun w v both => ?_))
  obtain ⟨mem, name, kind, body⟩ := both
  simp only [Function.comp, Variable.shape, name, kind, body,
    Expr.resolveLevels_eq_self (arranged.settledBodies v mem)]

theorem lexicon_settled : (c.toGrammar.settled .default c.start).lexicon = c.lexicon := by
  have complete : (c.toGrammar.normalForm c.start).lexicon = c.lexicon :=
    (normal_toGrammar arranged restorable partly).2
  rw [Grammar.settled, NormalForm.resolveLevels, complete]
  refine (List.map_congr_left fun entry mem => ?_).trans (List.map_id _)
  rw [Rule.resolveLevels_eq_self (arranged.settledEntries entry mem)]
  rfl

/-- No precedence of the written grammar has a name. -/
theorem unknownLevelReports_toGrammar (levels : Levels) :
    (c.toGrammar.normalForm c.start).unknownLevelReports levels = [] := by
  have complete : (c.toGrammar.normalForm c.start).lexicon = c.lexicon :=
    (normal_toGrammar arranged restorable partly).2
  have unnamed (owner : String) : unknownReports levels owner [] = [] := rfl
  rw [unknownLevelReports, expansions_toGrammar arranged restorable partly, complete]
  refine List.append_eq_nil_iff.2 ⟨List.append_eq_nil_iff.2 ⟨List.flatMap_eq_nil_iff.2 ?_, rfl⟩,
    List.flatMap_eq_nil_iff.2 fun entry mem => ?_⟩
  · intro w mem
    obtain ⟨place, bound, rfl⟩ := List.mem_iff_getElem.1 mem
    have vars := vars_toGrammar arranged restorable partly
    obtain ⟨-, -, body⟩ := vars.get bound (vars.length_eq ▸ bound)
    rw [List.get_eq_getElem, List.get_eq_getElem] at body
    rw [body, arranged.settledBodies _ (List.getElem_mem _), unnamed]
  · rw [arranged.settledEntries entry mem, unnamed]

theorem settles_toGrammar : c.toGrammar.Settles .default c.start where
  first := startRule_toGrammar arranged
  names := restorable.names
  clean := by
    have quiet := restorable.names
    simp only [Symbols.resolve, List.append_eq_nil_iff] at quiet
    exact ⟨quiet.1.1.1.2, (normal_toGrammar arranged restorable partly).1⟩
  consistent := rfl
  named := unknownLevelReports_toGrammar arranged restorable partly _

end Restorable

section Compiles

variable {g : Grammar} {settings : Settings} {start : String}
  (h : g.Compiles settings start c) (restorable : c.Restorable)

include h restorable

theorem agrees_toGrammar :
    (c.toGrammar.settled .default c.start).Agrees (g.settled settings start) where
  shapes := by
    rw [← h.shapes, shapes_settled h.arranged restorable (h.prefix_readLexicon restorable.distinct)]
  lexicon := by
    rw [lexicon_settled h.arranged restorable (h.prefix_readLexicon restorable.distinct), h.result]
    rfl
  externals := by
    have settled : (c.toGrammar.settled .default c.start).externals
        = (c.toGrammar.naming c.start).externals := rfl
    rw [settled, naming_externals c.start, h.result]
    rfl

/-- The checks find no errors in the written grammar. -/
theorem valid_toGrammar :
    Diagnostic.hasErrors (c.toGrammar.verdicts .default c.start) = false := by
  have agrees := agrees_toGrammar h restorable
  obtain ⟨tokens, repeats, -⟩ := h.quiet
  obtain ⟨consuming, -, entries⟩ := Validation.consuming_of_repeatReports repeats
  refine Validation.hasErrors_reports (agrees.lexicon ▸ tokens) ?_ fun d mem => ?_
  · have expansions : (c.toGrammar.settled .default c.start).expansions.keys = [] := by
      have none := expansions_toGrammar h.arranged restorable
        (h.prefix_readLexicon restorable.distinct)
      simp only [Grammar.settled, NormalForm.resolveLevels, OrderedMap.keys, OrderedMap.mapValues,
        none, List.map_nil]
    rw [agrees.firstSets, Validation.repeatReports, expansions, agrees.lexicon]
    refine List.append_eq_nil_iff.2 ⟨List.append_eq_nil_iff.2 ⟨?_, rfl⟩, ?_⟩
    · refine List.map_eq_nil_iff.2 (List.filter_eq_nil_iff.2 fun v mem => ?_)
      have body := List.mem_map_of_mem (f := Variable.body) mem
      rw [show (c.toGrammar.settled .default c.start).vars.map Variable.body = _ from
        agrees.bodies] at body
      obtain ⟨w, known, same⟩ := List.mem_map.1 body
      rw [← same, consuming w known]
      exact Bool.false_ne_true
    · refine List.map_eq_nil_iff.2 (List.filter_eq_nil_iff.2 fun entry mem => ?_)
      rw [entries entry mem]
      exact Bool.false_ne_true
  · have listed : d ∈ c.precedence := by
      rw [agrees.tables] at mem
      rw [h.result]
      exact mem
    refine Validation.ambiguityReport?_eq_none_iff.2 fun unresolved v found => ?_
    have shape := agrees.getElem?_vars d.id
    rw [found, ← List.getElem?_map, ← h.shapes, List.getElem?_map] at shape
    obtain ⟨w, there, same⟩ := Option.map_eq_some_iff.1 shape.symm
    obtain ⟨set, declared, named⟩ := restorable.covered d listed unresolved w there
    rw [show w.name = v.name from congrArg Prod.fst same] at named
    rw [Conflicts.covers, Bool.or_eq_true]
    exact .inl (Validation.contains_ofDeclared.2 ⟨set, declared, named⟩)

theorem restores_of_restorable :
    ∃ d, c.toGrammar.compile .default = .ok d ∧ c.Restores d := by
  have partly := h.prefix_readLexicon restorable.distinct
  have compiles : c.toGrammar.Compiles .default c.start _ :=
    ⟨settles_toGrammar h.arranged restorable partly, valid_toGrammar h restorable, rfl⟩
  exact ⟨_, compiles.compile_eq, h.restores compiles (agrees_toGrammar h restorable)
    (extras_toGrammar h.arranged restorable partly) (word_toGrammar h.arranged restorable partly)⟩

end Compiles

end CompiledGrammar

end Productions
