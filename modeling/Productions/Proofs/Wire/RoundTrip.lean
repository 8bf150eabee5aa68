import Productions.Proofs.Wire.Codec
import Productions.Wire.Compiled
import Productions.Wire.Grammar

/-! Rules, expressions, grammars and compiled grammars are read back from their bytes, the last
without warnings. The depth to which a rule nests is bounded by the number of its bytes, since the
bytes of a part are fewer. -/
namespace Productions

open Wire Wire.Codec

def Precedence.Fits : Precedence → Prop
  | .integer k => IsLevel k
  | .name _ => True

namespace Rule

mutual

def precedences : Rule → List Precedence
  | terminal _ | symbol _ => []
  | seq members | choice members => precedencesAll members
  | prec value _ content => value :: precedences content
  | repeated content _ | optional content | token content _ | aliased content _ _
  | field _ content => precedences content

def precedencesAll : List Rule → List Precedence
  | [] => []
  | rule :: rules => precedences rule ++ precedencesAll rules

end

theorem precedencesAll_eq_flatMap (rules : List Rule) :
    precedencesAll rules = rules.flatMap precedences := by
  induction rules with
  | nil => rfl
  | cons rule rules ih => rw [precedencesAll, ih, List.flatMap_cons]

def Fits (r : Rule) : Prop := ∀ value ∈ r.precedences, value.Fits

theorem fits_of_mem {members : List Rule} (h : ∀ value ∈ precedencesAll members, value.Fits)
    {r : Rule} (mem : r ∈ members) : r.Fits := by
  rw [precedencesAll_eq_flatMap] at h
  exact fun value hv => h value (List.mem_flatMap.2 ⟨r, mem, hv⟩)

end Rule

namespace Wire

namespace Codec

theorem lossless_assoc : assoc.Lossless fun _ => True :=
  (lossless_oneOf (by decide)).mono fun a _ => by cases a <;> decide

theorem lossless_repetition : repetition.Lossless fun _ => True :=
  (lossless_oneOf (by decide)).mono fun a _ => by cases a <;> decide

theorem lossless_precedence : precedence.Lossless Precedence.Fits :=
  ((lossless_level.either lossless_text).via fun v => by cases v <;> rfl).mono fun v hv => by
    cases v <;> exact hv

theorem lossless_terminal : terminal.Lossless fun _ => True :=
  ((lossless_text.either (lossless_text.pair lossless_text.option)).via fun t => by
    cases t <;> rfl).mono fun t _ => by
      cases t with
      | literal => trivial
      | pattern => exact ⟨trivial, fun _ _ => trivial⟩

end Codec

theorem encodeRules_eq_flatMap (rules : List Rule) :
    encodeRules rules = rules.flatMap encodeRule := by
  induction rules with
  | nil => rfl
  | cons rule rules ih => rw [encodeRules, ih, List.flatMap_cons]

theorem encodeRule_ne_nil (r : Rule) : encodeRule r ≠ [] := by
  cases r <;> exact case_ne_nil _ _

/-- A rule is read back by a decoder that may go as deep as the rule has bytes. Each part has at
least one byte less than the whole. -/
theorem reads_decodeRule (r : Rule) (fits : r.Fits) (short : (encodeRule r).length < 2 ^ 64)
    (depth : ℕ) (deep : (encodeRule r).length ≤ depth) :
    Reads (decodeRule depth) r (encodeRule r) := by
  induction r generalizing depth with
  | terminal t =>
    obtain ⟨depth, rfl, -⟩ := exists_depth deep
    have part := length_lt_length_case 0 (terminal.encode t)
    exact reads_case (by decide)
      ((lossless_terminal.reads t trivial (Nat.lt_trans part short)).bind_pure _)
  | symbol name =>
    obtain ⟨depth, rfl, -⟩ := exists_depth deep
    have part := length_lt_length_case 1 (text.encode name)
    exact reads_case (by decide)
      ((lossless_text.reads name trivial (Nat.lt_trans part short)).bind_pure _)
  | seq members ih | choice members ih =>
    obtain ⟨depth, rfl, room⟩ := exists_depth deep
    have part := Nat.lt_trans (length_lt_length_case _ _) short
    rw [encodeRules_eq_flatMap, List.length_append] at part room
    refine reads_case (by decide) (.bind_pure ?_ _)
    rw [encodeRules_eq_flatMap]
    refine reads_decodeList encodeRule_ne_nil (by omega) fun r hr => ?_
    have member := length_le_of_mem_flatMap encodeRule hr
    exact ih r hr (Rule.fits_of_mem fits hr) (by omega) depth (by omega)
  | repeated content repetition ih =>
    obtain ⟨depth, rfl, room⟩ := exists_depth deep
    have part := Nat.lt_trans (length_lt_length_case _ _) short
    rw [List.length_append] at part room
    have inner := ih fits (by omega) depth (by omega)
    exact reads_case (by decide)
      (inner.bind ((lossless_repetition.reads _ trivial (by omega)).bind_pure _))
  | optional content ih =>
    obtain ⟨depth, rfl, room⟩ := exists_depth deep
    have part := Nat.lt_trans (length_lt_length_case _ _) short
    exact reads_case (by decide) ((ih fits part depth room).bind_pure _)
  | token content immediate ih =>
    obtain ⟨depth, rfl, room⟩ := exists_depth deep
    have part := Nat.lt_trans (length_lt_length_case _ _) short
    rw [List.length_append] at part room
    have inner := ih fits (by omega) depth (by omega)
    exact reads_case (by decide)
      (inner.bind ((lossless_bool.reads _ trivial (by omega)).bind_pure _))
  | prec value a content ih =>
    obtain ⟨depth, rfl, room⟩ := exists_depth deep
    have part := Nat.lt_trans (length_lt_length_case _ _) short
    simp only [List.length_append] at part room
    rw [Rule.Fits, Rule.precedences, List.forall_mem_cons] at fits
    have inner := ih fits.2 (by omega) depth (by omega)
    refine reads_case (by decide) ?_
    rw [List.append_assoc]
    exact (lossless_precedence.reads value fits.1 (by omega)).bind
      ((lossless_assoc.reads a trivial (by omega)).bind (inner.bind_pure _))
  | aliased content value named ih =>
    obtain ⟨depth, rfl, room⟩ := exists_depth deep
    have part := Nat.lt_trans (length_lt_length_case _ _) short
    simp only [List.length_append] at part room
    have inner := ih fits (by omega) depth (by omega)
    refine reads_case (by decide) ?_
    rw [List.append_assoc]
    exact inner.bind ((lossless_text.reads value trivial (by omega)).bind
      ((lossless_bool.reads named trivial (by omega)).bind_pure _))
  | field name content ih =>
    obtain ⟨depth, rfl, room⟩ := exists_depth deep
    have part := Nat.lt_trans (length_lt_length_case _ _) short
    rw [List.length_append] at part room
    have inner := ih fits (by omega) depth (by omega)
    exact reads_case (by decide)
      ((lossless_text.reads name trivial (by omega)).bind (inner.bind_pure _))

/-- A codec may take the depth from the bytes that are there. -/
theorem Codec.lossless_rule : rule.Lossless Rule.Fits where
  encode_ne_nil := encodeRule_ne_nil
  reads r fits short rest := by
    refine reads_decodeRule r fits short _ ?_ rest
    change _ ≤ (encodeRule r ++ rest).length + 1
    rw [List.length_append]
    omega

end Wire

def Symbol.Fits : Symbol → Prop
  | .rule id | .lexical id | .external id => id < 2 ^ 32

namespace Expr

mutual

def precedences : Expr → List Precedence
  | symbol _ => []
  | seq members | choice members => precedencesAll members
  | prec value _ content => value :: precedences content
  | repeated content | aliased content _ _ | field _ content => precedences content

def precedencesAll : List Expr → List Precedence
  | [] => []
  | e :: es => precedences e ++ precedencesAll es

end

theorem precedencesAll_eq_flatMap (es : List Expr) :
    precedencesAll es = es.flatMap precedences := by
  induction es with
  | nil => rfl
  | cons e es ih => rw [precedencesAll, ih, List.flatMap_cons]

/-- All levels and all numbers of symbols in an expression can be written. -/
structure Fits (e : Expr) : Prop where
  levels : ∀ value ∈ e.precedences, value.Fits
  symbols : ∀ s ∈ e.symbols, s.Fits

theorem fits_of_mem {members : List Expr} (levels : ∀ value ∈ precedencesAll members, value.Fits)
    (known : ∀ s ∈ symbolsAll members, s.Fits) {e : Expr} (mem : e ∈ members) : e.Fits := by
  rw [precedencesAll_eq_flatMap] at levels
  rw [symbolsAll_eq_flatMap] at known
  exact ⟨fun value hv => levels value (List.mem_flatMap.2 ⟨e, mem, hv⟩),
    fun s hs => known s (List.mem_flatMap.2 ⟨e, mem, hs⟩)⟩

end Expr

namespace Wire

theorem Codec.lossless_symbol : symbol.Lossless Symbol.Fits where
  encode_ne_nil s := by cases s <;> exact case_ne_nil _ _
  reads s fits _ := by
    cases s <;> exact reads_case (by decide) ((reads_word fits).bind_pure _)

theorem encodeExprs_eq_flatMap (es : List Expr) : encodeExprs es = es.flatMap encodeExpr := by
  induction es with
  | nil => rfl
  | cons e es ih => rw [encodeExprs, ih, List.flatMap_cons]

theorem encodeExpr_ne_nil (e : Expr) : encodeExpr e ≠ [] := by
  cases e <;> exact case_ne_nil _ _

/-- An expression is read back by a decoder that may go as deep as the expression has bytes. -/
theorem reads_decodeExpr (e : Expr) (fits : e.Fits) (short : (encodeExpr e).length < 2 ^ 64)
    (depth : ℕ) (deep : (encodeExpr e).length ≤ depth) :
    Reads (decodeExpr depth) e (encodeExpr e) := by
  obtain ⟨levels, known⟩ := fits
  induction e generalizing depth with
  | symbol s =>
    obtain ⟨depth, rfl, -⟩ := exists_depth deep
    have part := Nat.lt_trans (length_lt_length_case _ _) short
    exact reads_case (by decide)
      ((lossless_symbol.reads s (known s List.mem_cons_self) part).bind_pure _)
  | seq members ih | choice members ih =>
    obtain ⟨depth, rfl, room⟩ := exists_depth deep
    have part := Nat.lt_trans (length_lt_length_case _ _) short
    rw [encodeExprs_eq_flatMap, List.length_append] at part room
    refine reads_case (by decide) (.bind_pure ?_ _)
    rw [encodeExprs_eq_flatMap]
    refine reads_decodeList encodeExpr_ne_nil (by omega) fun e he => ?_
    have member := length_le_of_mem_flatMap encodeExpr he
    obtain ⟨levels, known⟩ := Expr.fits_of_mem levels known he
    exact ih e he (by omega) depth (by omega) levels known
  | repeated content ih =>
    obtain ⟨depth, rfl, room⟩ := exists_depth deep
    have part := Nat.lt_trans (length_lt_length_case _ _) short
    exact reads_case (by decide) ((ih part depth room levels known).bind_pure _)
  | prec value a content ih =>
    obtain ⟨depth, rfl, room⟩ := exists_depth deep
    have part := Nat.lt_trans (length_lt_length_case _ _) short
    simp only [List.length_append] at part room
    rw [Expr.precedences, List.forall_mem_cons] at levels
    have inner := ih (by omega) depth (by omega) levels.2 known
    refine reads_case (by decide) ?_
    rw [List.append_assoc]
    exact (lossless_precedence.reads value levels.1 (by omega)).bind
      ((lossless_assoc.reads a trivial (by omega)).bind (inner.bind_pure _))
  | aliased content value named ih =>
    obtain ⟨depth, rfl, room⟩ := exists_depth deep
    have part := Nat.lt_trans (length_lt_length_case _ _) short
    simp only [List.length_append] at part room
    have inner := ih (by omega) depth (by omega) levels known
    refine reads_case (by decide) ?_
    rw [List.append_assoc]
    exact inner.bind ((lossless_text.reads value trivial (by omega)).bind
      ((lossless_bool.reads named trivial (by omega)).bind_pure _))
  | field name content ih =>
    obtain ⟨depth, rfl, room⟩ := exists_depth deep
    have part := Nat.lt_trans (length_lt_length_case _ _) short
    rw [List.length_append] at part room
    have inner := ih (by omega) depth (by omega) levels known
    exact reads_case (by decide)
      ((lossless_text.reads name trivial (by omega)).bind (inner.bind_pure _))

theorem Codec.lossless_expr : expr.Lossless Expr.Fits where
  encode_ne_nil := encodeExpr_ne_nil
  reads e fits short rest := by
    refine reads_decodeExpr e fits short _ ?_ rest
    change _ ≤ (encodeExpr e ++ rest).length + 1
    rw [List.length_append]
    omega

end Wire

namespace Wire.Codec

theorem lossless_texts : (list text).Lossless fun _ => True :=
  lossless_text.list.mono fun _ _ _ _ => trivial

theorem lossless_definition : definition.Lossless fun d => d.body.Fits :=
  ((lossless_text.pair (lossless_rule.pair lossless_bool)).via fun _ => rfl).mono
    fun _ fits => ⟨trivial, fits, trivial⟩

theorem lossless_orderingEntry : orderingEntry.Lossless fun _ => True :=
  ((lossless_text.either lossless_text).via fun entry => by cases entry <;> rfl).mono
    fun entry _ => by cases entry <;> trivial

theorem lossless_orderings : (list (list orderingEntry)).Lossless fun _ => True :=
  lossless_orderingEntry.list.list.mono fun _ _ _ _ _ _ => trivial

end Wire.Codec

/-- The levels of a grammar and the number of its bytes lie in the ranges of machine numbers. -/
structure Grammar.Fits (g : Grammar) : Prop where
  rules : ∀ d ∈ g.rules, d.body.Fits
  extras : ∀ r ∈ g.extras, r.Fits
  externals : ∀ r ∈ g.externals, r.Fits
  short : g.toBinary.length < 2 ^ 64

theorem Grammar.reads_toBinary {g : Grammar} (fits : g.Fits) :
    Reads grammar.decode g g.toBinary := by
  have parts := lossless_text.pair (lossless_definition.list.pair (lossless_rule.list.pair
    (lossless_orderings.pair (lossless_texts.list.pair (lossless_rule.list.pair
      (lossless_texts.pair (lossless_texts.pair lossless_text.option)))))))
  refine parts.reads_via _ _ ?_ fits.short
  exact ⟨trivial, fits.rules, fits.extras, trivial, fun _ _ => trivial, fits.externals, trivial,
    trivial, fun _ _ => trivial⟩

theorem Grammar.ofBinary_toBinary {g : Grammar} (fits : g.Fits) (rest : Bytes) :
    Grammar.ofBinary (g.toBinary ++ rest) = .ok g :=
  read_eq_of_reads (reads_toBinary fits) rest

namespace Wire.Codec

theorem lossless_kind : kind.Lossless fun _ => True :=
  (lossless_oneOf (by decide)).mono fun k _ => by cases k <;> decide

theorem lossless_nodeType : nodeType.Lossless fun _ => True :=
  ((lossless_text.pair lossless_bool).via fun _ => rfl).mono fun _ _ => ⟨trivial, trivial⟩

theorem lossless_fieldInfo : fieldInfo.Lossless fun _ => True :=
  ((lossless_bool.pair (lossless_bool.pair lossless_nodeType.list)).via fun _ => rfl).mono
    fun _ _ => ⟨trivial, trivial, fun _ _ => trivial⟩

theorem lossless_variableRule : variableRule.Lossless fun v => v.body.Fits :=
  ((lossless_text.pair (lossless_kind.pair (lossless_expr.pair
    (lossless_texts.pair lossless_fieldInfo.map)))).via fun _ => rfl).mono
      fun _ fits => ⟨trivial, trivial, fits, trivial, fun _ _ => trivial⟩

theorem lossless_lexicalEntry : lexicalEntry.Lossless fun entry => entry.content.Fits :=
  ((lossless_text.pair (lossless_bool.pair (lossless_rule.pair lossless_bool))).via
    fun _ => rfl).mono fun _ fits => ⟨trivial, trivial, fits, trivial⟩

theorem lossless_externalToken : externalToken.Lossless fun _ => True :=
  ((lossless_text.pair lossless_bool).via fun _ => rfl).mono fun _ _ => ⟨trivial, trivial⟩

theorem lossless_levelEntry : levelEntry.Lossless fun l => IsLevel l.level :=
  ((lossless_level.pair lossless_assoc).via fun _ => rfl).mono fun _ fits => ⟨fits, trivial⟩

end Wire.Codec

structure Annotation.Fits (a : Annotation) : Prop where
  level : ∀ k, a.level = some k → IsLevel k
  dynamic : ∀ k, a.dynamic = some k → IsLevel k

structure Disambiguation.Fits (d : Disambiguation) : Prop where
  id : d.id < 2 ^ 32
  annotations : ∀ a ∈ d.alternatives, a.precedence.Fits
  places : ∀ t ∈ d.tieBreaks, t.reduce < 2 ^ 64 ∧ t.shift < 2 ^ 64

namespace Wire.Codec

theorem lossless_levelPair : levelPair.Lossless Annotation.Fits :=
  ((lossless_level.option.pair (lossless_assoc.pair lossless_level.option)).via fun _ => rfl).mono
    fun _ fits => ⟨fits.level, trivial, fits.dynamic⟩

theorem lossless_resolution : resolution.Lossless fun _ => True :=
  (lossless_oneOf (by decide)).mono fun res _ => by cases res <;> decide

theorem lossless_alternative : alternative.Lossless fun a => a.precedence.Fits :=
  ((lossless_levelPair.pair (lossless_bool.pair (lossless_bool.pair lossless_bool))).via
    fun _ => rfl).mono fun _ fits => ⟨fits, trivial, trivial, trivial⟩

theorem lossless_tieBreak : tieBreak.Lossless fun t => t.reduce < 2 ^ 64 ∧ t.shift < 2 ^ 64 :=
  ((lossless_size.pair (lossless_size.pair lossless_resolution)).via fun _ => rfl).mono
    fun _ fits => ⟨fits.1, fits.2, trivial⟩

theorem lossless_disambiguation : disambiguation.Lossless Disambiguation.Fits :=
  ((lossless_text.pair (lossless_word.pair (lossless_alternative.list.pair
    lossless_tieBreak.list))).via fun _ => rfl).mono
      fun _ fits => ⟨trivial, fits.id, fits.annotations, fits.places⟩

theorem lossless_aliasInfo : aliasInfo.Lossless fun _ => True :=
  ((lossless_bool.pair lossless_texts).via fun _ => rfl).mono fun _ _ => ⟨trivial, trivial⟩

end Wire.Codec

namespace CompiledGrammar

/-- The numbers of a compiled grammar and the number of its bytes lie in the ranges of machine
numbers. -/
structure Fits (c : CompiledGrammar) : Prop where
  bodies : ∀ v ∈ c.vars, v.body.Fits
  contents : ∀ entry ∈ c.lexicon, entry.content.Fits
  extras : ∀ s ∈ c.extras, s.Fits
  word : ∀ s, c.word = some s → s.Fits
  levels : ∀ e ∈ c.levels.entries, IsLevel e.2.level
  tables : ∀ d ∈ c.precedence, d.Fits
  short : c.toBinary.length < 2 ^ 64

theorem reads_toBinary {c : CompiledGrammar} (fits : c.Fits) :
    Reads compiled.decode { c with warnings := [] } c.toBinary := by
  have parts := lossless_text.pair (lossless_text.pair (lossless_variableRule.list.pair
    (lossless_lexicalEntry.list.pair (lossless_externalToken.list.pair (lossless_symbol.list.pair
      (lossless_symbol.option.pair (lossless_texts.list.pair (lossless_texts.map.pair
        (lossless_levelEntry.map.pair (lossless_disambiguation.list.pair
          lossless_aliasInfo.map))))))))))
  refine parts.reads_via _ _ ?_ fits.short
  exact ⟨trivial, trivial, fits.bodies, fits.contents, fun _ _ => trivial, fits.extras, fits.word,
    fun _ _ => trivial, fun _ _ => trivial, fits.levels, fits.tables, fun _ _ => trivial⟩

theorem ofBinary_toBinary {c : CompiledGrammar} (fits : c.Fits) (rest : Bytes) :
    ofBinary (c.toBinary ++ rest) = .ok { c with warnings := [] } :=
  read_eq_of_reads (reads_toBinary fits) rest

end CompiledGrammar

end Productions
