import Mathlib.Data.Nat.Digits.Defs
import Productions.Proofs.Wire.RoundTrip

/-! The binary form as a format on its own. A value is seen as a tree of flags, numbers, texts,
options, sequences, records and variants, with the parts of a record and the cases of a type in the
order in which they are declared, and the bytes of such a tree follow from its shape alone. -/
namespace Productions

open Wire

inductive Datum where
  | flag (value : Bool)
  | unsigned (value : ℕ)
  | signed (value : Int)
  | text (value : String)
  | absent
  | present (value : Datum)
  | sequence (items : List Datum)
  | record (parts : List Datum)
  | variant (place : ℕ) (parts : List Datum)

namespace Datum

/-- The groups of seven bits of a number, the lowest first. Zero has one group. -/
def groups (n : ℕ) : List ℕ := if n = 0 then [0] else Nat.digits 128 n

def marked : List ℕ → Bytes
  | [] => []
  | [last] => [last.toUInt8]
  | group :: next :: rest => (group + 128).toUInt8 :: marked (next :: rest)

def varint (n : ℕ) : Bytes := marked (groups n)

mutual

/-- A sequence, a text and a variant begin with a number, an option with a flag. A record has
nothing around its parts. -/
def bytes : Datum → Bytes
  | flag value => [if value then 1 else 0]
  | unsigned n => varint n
  | signed k => varint (if 0 ≤ k then 2 * k else -2 * k - 1).toNat
  | text t => varint t.utf8ByteSize ++ t.toUTF8.data.toList
  | absent => [0]
  | present value => 1 :: bytes value
  | sequence items => varint items.length ++ bytesAll items
  | record parts => bytesAll parts
  | variant place parts => varint place ++ bytesAll parts

def bytesAll : List Datum → Bytes
  | [] => []
  | d :: ds => bytes d ++ bytesAll ds

end

theorem encodeNat_eq_varint (n : ℕ) : encodeNat n = varint n := by
  induction n using Nat.strongRecOn with
  | ind n ih =>
    rw [encodeNat]
    split <;> rename_i small
    · by_cases zero : n = 0
      · subst zero
        rfl
      · rw [varint, groups, if_neg zero, Nat.digits_of_lt 128 n zero small]
        rfl
    · have rest : n / 128 ≠ 0 := by omega
      have more : Nat.digits 128 (n / 128) ≠ [] := Nat.digits_ne_nil_iff_ne_zero.2 rest
      obtain ⟨next, others, split⟩ := List.exists_cons_of_ne_nil more
      have expand : Nat.digits 128 n = n % 128 :: Nat.digits 128 (n / 128) :=
        Nat.digits_def' (by decide) (by omega)
      rw [ih (n / 128) (by omega), varint, varint, groups, groups, if_neg rest, if_neg (by omega),
        expand, split]
      rfl

def ofOption {α : Type} (f : α → Datum) : Option α → Datum
  | none => absent
  | some a => present (f a)

def ofList {α : Type} (f : α → Datum) (as : List α) : Datum := sequence (as.map f)

def ofEntries {α : Type} (f : α → Datum) (m : OrderedMap String α) : Datum :=
  sequence (m.entries.map fun e => record [text e.1, f e.2])

end Datum

open Datum

def Terminal.datum : Terminal → Datum
  | literal t => variant 0 [text t]
  | pattern value flags => variant 1 [text value, ofOption text flags]

def Precedence.datum : Precedence → Datum
  | integer k => variant 0 [signed k]
  | name n => variant 1 [text n]

def Assoc.datum (a : Assoc) : Datum := variant a.ctorIdx []

def Repetition.datum (r : Repetition) : Datum := variant r.ctorIdx []

def SymbolKind.datum (kind : SymbolKind) : Datum := variant kind.ctorIdx []

def Resolution.datum (res : Resolution) : Datum := variant res.ctorIdx []

def Symbol.datum : Symbol → Datum
  | rule id => variant 0 [unsigned id]
  | lexical id => variant 1 [unsigned id]
  | external id => variant 2 [unsigned id]

namespace Rule

mutual

def datum : Rule → Datum
  | terminal t => variant 0 [t.datum]
  | symbol name => variant 1 [text name]
  | seq members => variant 2 [sequence (dataOf members)]
  | choice members => variant 3 [sequence (dataOf members)]
  | repeated content repetition => variant 4 [datum content, repetition.datum]
  | optional content => variant 5 [datum content]
  | token content immediate => variant 6 [datum content, flag immediate]
  | prec value assoc content => variant 7 [value.datum, assoc.datum, datum content]
  | aliased content value named => variant 8 [datum content, text value, flag named]
  | field name content => variant 9 [text name, datum content]

def dataOf : List Rule → List Datum
  | [] => []
  | rule :: rules => datum rule :: dataOf rules

end

end Rule

namespace Expr

mutual

def datum : Expr → Datum
  | symbol s => variant 0 [s.datum]
  | seq members => variant 1 [sequence (dataOf members)]
  | choice members => variant 2 [sequence (dataOf members)]
  | repeated content => variant 3 [datum content]
  | prec value assoc content => variant 4 [value.datum, assoc.datum, datum content]
  | aliased content value named => variant 5 [datum content, text value, flag named]
  | field name content => variant 6 [text name, datum content]

def dataOf : List Expr → List Datum
  | [] => []
  | e :: es => datum e :: dataOf es

end

end Expr

def Definition.datum (d : Definition) : Datum := record [text d.name, d.body.datum, flag d.hidden]

def OrderingEntry.datum : OrderingEntry → Datum
  | name n => variant 0 [.text n]
  | symbol n => variant 1 [.text n]

def Grammar.datum (g : Grammar) : Datum :=
  record [text g.name, ofList Definition.datum g.rules, ofList Rule.datum g.extras,
    ofList (ofList OrderingEntry.datum) g.precedences, ofList (ofList text) g.conflicts,
    ofList Rule.datum g.externals, ofList text g.inlined, ofList text g.supertypes,
    ofOption text g.word]

def NodeType.datum (n : NodeType) : Datum := record [text n.name, flag n.named]

def FieldInfo.datum (f : FieldInfo) : Datum :=
  record [flag f.multiple, flag f.required, ofList NodeType.datum f.types]

def Variable.datum (v : Variable) : Datum :=
  record [text v.name, v.kind.datum, v.body.datum, ofList text v.inlined,
    ofEntries FieldInfo.datum v.fields]

def LexicalEntry.datum (entry : LexicalEntry) : Datum :=
  record [text entry.name, flag entry.named, entry.content.datum, flag entry.immediate]

def ExternalToken.datum (token : ExternalToken) : Datum := record [text token.name, flag token.named]

def Level.datum (l : Level) : Datum := record [signed l.level, l.assoc.datum]

def Annotation.datum (a : Annotation) : Datum :=
  record [ofOption signed a.level, a.assoc.datum, ofOption signed a.dynamic]

def Alternative.datum (a : Alternative) : Datum :=
  record [a.precedence.datum, flag a.selfReferential, flag a.leftOpen, flag a.rightOpen]

def TieBreak.datum (t : TieBreak) : Datum :=
  record [unsigned t.reduce, unsigned t.shift, t.resolution.datum]

def Disambiguation.datum (d : Disambiguation) : Datum :=
  record [text d.rule, unsigned d.id, ofList Alternative.datum d.alternatives,
    ofList TieBreak.datum d.tieBreaks]

def AliasInfo.datum (a : AliasInfo) : Datum := record [flag a.named, ofList text a.sources]

def CompiledGrammar.datum (c : CompiledGrammar) : Datum :=
  record [text c.name, text c.start, ofList Variable.datum c.vars,
    ofList LexicalEntry.datum c.lexicon, ofList ExternalToken.datum c.externals,
    ofList Symbol.datum c.extras, ofOption Symbol.datum c.word, ofList (ofList text) c.conflicts,
    ofEntries (ofList text) c.supertypes, ofEntries Level.datum c.levels,
    ofList Disambiguation.datum c.precedence, ofEntries AliasInfo.datum c.aliases]

namespace Wire.Codec

def Follows {α : Type} (c : Codec α) (f : α → Datum) : Prop := ∀ a, c.encode a = (f a).bytes

def Spells {α : Type} (c : Codec α) (f : α → List Datum) : Prop := ∀ a, c.encode a = bytesAll (f a)

variable {α β : Type} {c : Codec α} {d : Codec β} {f : α → Datum} {h : β → Datum}

theorem Follows.spells (hc : c.Follows f) : c.Spells fun a => [f a] := fun a => by
  rw [hc a, bytesAll, bytesAll, List.append_nil]

theorem Follows.pair {parts : β → List Datum} (hc : c.Follows f) (hd : d.Spells parts) :
    (c.pair d).Spells fun x => f x.1 :: parts x.2 := fun x =>
  congrArg₂ (· ++ ·) (hc x.1) (hd x.2)

theorem Spells.record {parts : α → List Datum} (hc : c.Spells parts) (view : β → α)
    (build : α → β) : (c.via view build).Follows fun b => .record (parts (view b)) :=
  fun b => hc (view b)

theorem follows_text : Codec.text.Follows .text := fun t =>
  congrArg (· ++ t.toUTF8.data.toList) (encodeNat_eq_varint t.utf8ByteSize)

theorem follows_bool : bool.Follows flag := fun _ => rfl

theorem follows_word : word.Follows unsigned := encodeNat_eq_varint

theorem follows_size : size.Follows unsigned := encodeNat_eq_varint

theorem follows_level : level.Follows signed := by
  intro k
  refine (encodeNat_eq_varint (zigzag k)).trans (congrArg varint ?_)
  cases k with
  | ofNat n =>
    rw [zigzag, Int.ofNat_eq_natCast, if_pos (Int.natCast_nonneg n)]
    omega
  | negSucc n =>
    rw [zigzag, if_neg (by omega)]
    omega

theorem encode_list {enc : α → Bytes} {as : List α} (each : ∀ a ∈ as, enc a = (f a).bytes) :
    size.encode as.length ++ as.flatMap enc = (sequence (as.map f)).bytes := by
  have items : as.flatMap enc = bytesAll (as.map f) := by
    induction as with
    | nil => rfl
    | cons a as ih =>
      rw [List.flatMap_cons, List.map_cons, bytesAll, each a (by simp),
        ih fun b hb => each b (by simp [hb])]
  rw [bytes, items, List.length_map]
  exact congrArg (· ++ _) (encodeNat_eq_varint as.length)

theorem Follows.list (hc : c.Follows f) : (Codec.list c).Follows (ofList f) :=
  fun _ => encode_list fun a _ => hc a

theorem Follows.option (hc : c.Follows f) : (Codec.option c).Follows (ofOption f)
  | none => rfl
  | some a => congrArg (List.cons 1) (hc a)

theorem Follows.map (hc : c.Follows f) : (Codec.map c).Follows (ofEntries f) := fun m =>
  (Follows.list (f := fun e : String × α => .record [.text e.1, f e.2])
    (follows_text.pair hc.spells)) m.entries

theorem case_eq {place : ℕ} {payload : Bytes} {parts : List Datum}
    (h : payload = bytesAll parts) : case place payload = (variant place parts).bytes := by
  rw [case, bytes, h]
  exact congrArg (· ++ bytesAll parts) (encodeNat_eq_varint place)

theorem follows_assoc : assoc.Follows Assoc.datum := fun a => by
  cases a <;> exact case_eq rfl

theorem follows_repetition : repetition.Follows Repetition.datum := fun r => by
  cases r <;> exact case_eq rfl

theorem follows_kind : kind.Follows SymbolKind.datum := fun kind => by
  cases kind <;> exact case_eq rfl

theorem follows_resolution : resolution.Follows Resolution.datum := fun res => by
  cases res <;> exact case_eq rfl

theorem follows_precedence : precedence.Follows Precedence.datum
  | .integer k => case_eq (follows_level.spells k)
  | .name n => case_eq (follows_text.spells n)

theorem follows_terminal : terminal.Follows Terminal.datum
  | .literal t => case_eq (follows_text.spells t)
  | .pattern value flags =>
    case_eq ((follows_text.pair follows_text.option.spells) (value, flags))

theorem follows_orderingEntry : orderingEntry.Follows OrderingEntry.datum
  | .name n => case_eq (follows_text.spells n)
  | .symbol n => case_eq (follows_text.spells n)

theorem follows_symbol : symbol.Follows Symbol.datum
  | .rule id => case_eq (follows_word.spells id)
  | .lexical id => case_eq (follows_word.spells id)
  | .external id => case_eq (follows_word.spells id)

theorem dataOf_rules (rules : List Rule) : Rule.dataOf rules = rules.map Rule.datum := by
  induction rules with
  | nil => rfl
  | cons r rules ih => rw [Rule.dataOf, ih, List.map_cons]

theorem follows_rule : rule.Follows Rule.datum := fun r => by
  change encodeRule r = r.datum.bytes
  induction r with
  | terminal t => exact case_eq (follows_terminal.spells t)
  | symbol name => exact case_eq (follows_text.spells name)
  | seq members ih | choice members ih =>
    refine case_eq ?_
    rw [encodeRules_eq_flatMap, encode_list ih, dataOf_rules, bytesAll, bytesAll, List.append_nil]
  | repeated content repetition ih =>
    exact case_eq (by simp only [bytesAll, ih, follows_repetition repetition, List.append_nil])
  | optional content ih => exact case_eq (by simp only [bytesAll, ih, List.append_nil])
  | token content immediate ih =>
    exact case_eq (by simp only [bytesAll, ih, follows_bool immediate, List.append_nil])
  | prec value assoc content ih =>
    exact case_eq (by simp only [bytesAll, ih, follows_precedence value, follows_assoc assoc,
      List.append_nil, List.append_assoc])
  | aliased content value named ih =>
    exact case_eq (by simp only [bytesAll, ih, follows_text value, follows_bool named,
      List.append_nil, List.append_assoc])
  | field name content ih =>
    exact case_eq (by simp only [bytesAll, ih, follows_text name, List.append_nil])

theorem dataOf_exprs (es : List Expr) : Expr.dataOf es = es.map Expr.datum := by
  induction es with
  | nil => rfl
  | cons e es ih => rw [Expr.dataOf, ih, List.map_cons]

theorem follows_expr : expr.Follows Expr.datum := fun e => by
  change encodeExpr e = e.datum.bytes
  induction e with
  | symbol s => exact case_eq (follows_symbol.spells s)
  | seq members ih | choice members ih =>
    refine case_eq ?_
    rw [encodeExprs_eq_flatMap, encode_list ih, dataOf_exprs, bytesAll, bytesAll, List.append_nil]
  | repeated content ih => exact case_eq (by simp only [bytesAll, ih, List.append_nil])
  | prec value assoc content ih =>
    exact case_eq (by simp only [bytesAll, ih, follows_precedence value, follows_assoc assoc,
      List.append_nil, List.append_assoc])
  | aliased content value named ih =>
    exact case_eq (by simp only [bytesAll, ih, follows_text value, follows_bool named,
      List.append_nil, List.append_assoc])
  | field name content ih =>
    exact case_eq (by simp only [bytesAll, ih, follows_text name, List.append_nil])

theorem follows_definition : definition.Follows Definition.datum :=
  (follows_text.pair (follows_rule.pair follows_bool.spells)).record _ _

theorem follows_grammar : grammar.Follows Grammar.datum :=
  (follows_text.pair (follows_definition.list.pair (follows_rule.list.pair
    (follows_orderingEntry.list.list.pair (follows_text.list.list.pair (follows_rule.list.pair
      (follows_text.list.pair (follows_text.list.pair follows_text.option.spells)))))))).record _ _

theorem follows_nodeType : nodeType.Follows NodeType.datum :=
  (follows_text.pair follows_bool.spells).record _ _

theorem follows_fieldInfo : fieldInfo.Follows FieldInfo.datum :=
  (follows_bool.pair (follows_bool.pair follows_nodeType.list.spells)).record _ _

theorem follows_variableRule : variableRule.Follows Variable.datum :=
  (follows_text.pair (follows_kind.pair (follows_expr.pair
    (follows_text.list.pair follows_fieldInfo.map.spells)))).record _ _

theorem follows_lexicalEntry : lexicalEntry.Follows LexicalEntry.datum :=
  (follows_text.pair (follows_bool.pair (follows_rule.pair follows_bool.spells))).record _ _

theorem follows_externalToken : externalToken.Follows ExternalToken.datum :=
  (follows_text.pair follows_bool.spells).record _ _

theorem follows_levelEntry : levelEntry.Follows Level.datum :=
  (follows_level.pair follows_assoc.spells).record _ _

theorem follows_levelPair : levelPair.Follows Annotation.datum :=
  (follows_level.option.pair (follows_assoc.pair follows_level.option.spells)).record _ _

theorem follows_alternative : alternative.Follows Alternative.datum :=
  (follows_levelPair.pair (follows_bool.pair (follows_bool.pair follows_bool.spells))).record _ _

theorem follows_tieBreak : tieBreak.Follows TieBreak.datum :=
  (follows_size.pair (follows_size.pair follows_resolution.spells)).record _ _

theorem follows_disambiguation : disambiguation.Follows Disambiguation.datum :=
  (follows_text.pair (follows_word.pair (follows_alternative.list.pair
    follows_tieBreak.list.spells))).record _ _

theorem follows_aliasInfo : aliasInfo.Follows AliasInfo.datum :=
  (follows_bool.pair follows_text.list.spells).record _ _

theorem follows_compiled : compiled.Follows CompiledGrammar.datum :=
  (follows_text.pair (follows_text.pair (follows_variableRule.list.pair
    (follows_lexicalEntry.list.pair (follows_externalToken.list.pair (follows_symbol.list.pair
      (follows_symbol.option.pair (follows_text.list.list.pair (follows_text.list.map.pair
        (follows_levelEntry.map.pair (follows_disambiguation.list.pair
          follows_aliasInfo.map.spells))))))))))).record _ _

end Wire.Codec

/-- The binary form loses nothing but warnings, whatever bytes follow it, and writes the tree of a
value. -/
theorem binary_faithful :
    (∀ g : Grammar, g.toBinary = g.datum.bytes)
      ∧ (∀ c : CompiledGrammar, c.toBinary = c.datum.bytes)
      ∧ (∀ (g : Grammar) (rest : Bytes), g.Fits → Grammar.ofBinary (g.toBinary ++ rest) = .ok g)
      ∧ ∀ (c : CompiledGrammar) (rest : Bytes), c.Fits →
        CompiledGrammar.ofBinary (c.toBinary ++ rest) = .ok { c with warnings := [] } :=
  ⟨Wire.Codec.follows_grammar, Wire.Codec.follows_compiled,
    fun _ rest fits => Grammar.ofBinary_toBinary fits rest,
    fun _ rest fits => CompiledGrammar.ofBinary_toBinary fits rest⟩

/-- A rule with a level below zero. -/
def lowered : Grammar :=
  { Grammar.empty "low" with
    rules := [⟨"a", .prec (.integer (-70)) .right (.terminal (.literal "é")), false⟩] }

def loweredCompiled : CompiledGrammar where
  name := "low"
  start := "a"
  vars := [⟨"a", .nonterminal, .prec (.integer (-70)) .right (.symbol (.lexical 0)), [], ∅⟩]
  lexicon := [⟨"é", false, .terminal (.literal "é"), false⟩]
  externals := []
  extras := [.lexical 200]
  word := none
  conflicts := [["a"]]
  supertypes := ∅
  levels := .ofList [("low", ⟨-70, .right⟩), ("high", ⟨70, .left⟩)]
  precedence := [⟨"a", 0, [⟨⟨some (-70), .right, none⟩, false, false, false⟩], []⟩]
  aliases := ∅
  warnings := [.named .unreachableRule "b" []]

theorem binary_faithful_lowered :
    Grammar.ofBinary (lowered.toBinary ++ [7]) = .ok lowered
      ∧ CompiledGrammar.ofBinary (loweredCompiled.toBinary ++ [7])
        = .ok { loweredCompiled with warnings := [] } := by
  obtain ⟨-, -, grammar, compiled⟩ := binary_faithful
  have level : Codec.IsLevel (-70) := by simp [Codec.IsLevel]
  have fits : lowered.Fits :=
    { rules := by simpa [lowered, Rule.Fits, Rule.precedences, Precedence.Fits] using level
      extras := by simp [lowered, Grammar.empty]
      externals := by simp [lowered, Grammar.empty]
      short := by decide +kernel }
  have body : (Expr.prec (.integer (-70)) .right (.symbol (.lexical 0))).Fits :=
    ⟨by simpa [Expr.precedences, Precedence.Fits] using level, by simp [Expr.symbols, Symbol.Fits]⟩
  have table : (Disambiguation.mk "a" 0 [⟨⟨some (-70), .right, none⟩, false, false, false⟩] []).Fits :=
    ⟨by decide, by simpa using ⟨by simpa using level, by simp⟩, by simp⟩
  have fits' : loweredCompiled.Fits :=
    { bodies := by simpa [loweredCompiled] using body
      contents := by simp [loweredCompiled, Rule.Fits, Rule.precedences]
      extras := by simp [loweredCompiled, Symbol.Fits]
      word := by simp [loweredCompiled]
      levels := by
        change ∀ e ∈ [("low", Level.mk (-70) .right), ("high", ⟨70, .left⟩)], Codec.IsLevel e.2.level
        simp [Codec.IsLevel]
      tables := by simpa [loweredCompiled] using table
      short := by decide +kernel }
  exact ⟨grammar lowered [7] fits, compiled loweredCompiled [7] fits'⟩

end Productions
