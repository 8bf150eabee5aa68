import Productions.Proofs.Wire.RoundTrip

/-! Bytes that end too early. What a decoder finds on some bytes it finds on the same bytes with
more behind them, unless it ran out of bytes. So a strict front part of what was written can only
make it run out: anything else it said would stand on the whole, too. -/
namespace Productions

namespace Wire

def carry {α : Type} (more : Bytes) : Except Fault (α × Bytes) → Except Fault (α × Bytes)
  | .ok (a, rest) => .ok (a, rest ++ more)
  | .error fault => .error fault

/-- Whatever `d` finds on some bytes, `d'` finds when more bytes follow, unless `d` ran out. -/
def Foretells {α : Type} (d d' : Decoder α) : Prop :=
  ∀ bytes more, d bytes = .error .endOfInput ∨ d' (bytes ++ more) = carry more (d bytes)

section Foretells

variable {α β : Type} {d d' : Decoder α} {f f' : α → Decoder β}

theorem foretells_pure (a : α) : Foretells (pure a) (pure a) := fun _ _ => .inr rfl

theorem foretells_throw (fault : Fault) : Foretells (throw fault : Decoder α) (throw fault) :=
  fun _ _ => .inr rfl

theorem Foretells.bind (h : Foretells d d') (next : ∀ a, Foretells (f a) (f' a)) :
    Foretells (d >>= f) (d' >>= f') := by
  intro bytes more
  rcases h bytes more with out | first
  · left
    simp only [Bind.bind, StateT.bind, out, Except.bind]
  · simp only [Bind.bind, StateT.bind, first]
    cases d bytes with
    | error fault => exact .inr rfl
    | ok answer =>
      obtain ⟨a, rest⟩ := answer
      exact next a rest more

theorem Foretells.bind_pure (h : Foretells d d') (g : α → β) :
    Foretells (d >>= fun a => pure (g a)) (d' >>= fun a => pure (g a)) :=
  h.bind fun a => foretells_pure (g a)

theorem Foretells.map (h : Foretells d d') (g : α → β) : Foretells (g <$> d) (g <$> d') :=
  h.bind_pure g

theorem foretells_byte : Foretells byte byte
  | [], _ => .inl rfl
  | _ :: _, _ => .inr rfl

theorem foretells_decodeNat (top more : ℕ) :
    Foretells (decodeNat top more) (decodeNat top more) := by
  induction more with
  | zero =>
    refine foretells_byte.bind fun b => ?_
    split
    · exact foretells_pure _
    · exact foretells_throw _
  | succ more ih =>
    refine foretells_byte.bind fun b => ?_
    split
    · exact foretells_pure _
    · exact ih.bind_pure _

end Foretells

namespace Codec

/-- More bytes behind a value change nothing for a codec that has not run out. -/
def Steady {α : Type} (c : Codec α) : Prop := Foretells c.decode c.decode

section Steady

variable {α β : Type} {c : Codec α} {d : Codec β}

/-- A strict front part of what is read as a value makes a steady codec run out. -/
theorem Steady.read_of_prefix (h : c.Steady) {a : α} {front whole : Bytes}
    (reads : Reads c.decode a whole) (part : front <+: whole) (strict : front ≠ whole) :
    c.read front = .error .endOfInput := by
  obtain ⟨more, rfl⟩ := part
  have full : c.decode (front ++ more) = .ok (a, []) := by
    have alone := reads []
    rwa [List.append_nil] at alone
  rcases h front more with out | same
  · rw [read, out]
  · rw [full] at same
    cases found : c.decode front with
    | error fault =>
      rw [found] at same
      cases same
    | ok answer =>
      obtain ⟨b, rest⟩ := answer
      rw [found, carry, Except.ok.injEq, Prod.mk.injEq] at same
      obtain ⟨-, rfl⟩ := List.append_eq_nil_iff.1 same.2.symm
      exact absurd (List.append_nil front).symm strict

theorem steady_word : word.Steady := foretells_decodeNat 15 4

theorem steady_size : size.Steady := foretells_decodeNat 1 9

theorem Steady.via (h : c.Steady) (f : β → α) (g : α → β) : (c.via f g).Steady := Foretells.map h g

theorem steady_level : level.Steady := steady_word.via _ _

theorem steady_bool : bool.Steady := by
  refine foretells_byte.bind fun b => ?_
  split
  · exact foretells_pure _
  · exact foretells_pure _
  · exact foretells_throw _

theorem foretells_take (n : ℕ) : Foretells (take n) (take n) := by
  intro bytes more
  by_cases few : bytes.length < n
  · left
    rw [take, if_pos few]
  · right
    have enough : n ≤ bytes.length := Nat.le_of_not_lt few
    rw [take, take, if_neg few, if_neg (by rw [List.length_append]; omega),
      List.take_append_of_le_length enough, List.drop_append_of_le_length enough]
    rfl

theorem steady_text : text.Steady := by
  refine steady_size.bind fun n => (foretells_take n).bind fun bytes => ?_
  split
  · exact foretells_pure _
  · exact foretells_throw _

theorem Steady.pair (hc : c.Steady) (hd : d.Steady) : (c.pair d).Steady :=
  Foretells.bind hc fun a => Foretells.bind_pure hd fun b => (a, b)

theorem Steady.option (h : c.Steady) : (Codec.option c).Steady := by
  refine foretells_byte.bind fun b => ?_
  split
  · exact foretells_pure _
  · exact Foretells.bind_pure h some
  · exact foretells_throw _

theorem foretells_decodeList {dec dec' : Decoder α} (h : Foretells dec dec') :
    Foretells (decodeList dec) (decodeList dec') := by
  refine steady_size.bind fun n => ?_
  induction n with
  | zero => exact foretells_pure []
  | succ n ih => exact h.bind fun a => ih.bind_pure _

theorem Steady.list (h : c.Steady) : (Codec.list c).Steady := foretells_decodeList h

theorem Steady.map (h : c.Steady) : (Codec.map c).Steady := (steady_text.pair h).list.via _ _

theorem steady_oneOf [BEq α] (values : List α) : (oneOf values).Steady := by
  refine steady_word.bind fun place => ?_
  split
  · exact foretells_pure _
  · exact foretells_throw _

theorem Steady.either (hc : c.Steady) (hd : d.Steady) : (c.either d).Steady := by
  refine steady_word.bind fun place => ?_
  split
  · exact Foretells.bind_pure hc Sum.inl
  · exact Foretells.bind_pure hd Sum.inr
  · exact foretells_throw _

end Steady

/-! A decoder that may go deeper finds at least as much: at the end of its depth it has run out. -/

theorem steady_precedence : precedence.Steady := (steady_level.either steady_text).via _ _

theorem steady_terminal : terminal.Steady :=
  (steady_text.either (steady_text.pair steady_text.option)).via _ _

theorem foretells_decodeRule {depth deeper : ℕ} (le : depth ≤ deeper) :
    Foretells (decodeRule depth) (decodeRule deeper) := by
  induction depth generalizing deeper with
  | zero => exact fun _ _ => .inl rfl
  | succ depth ih =>
    obtain ⟨deeper, rfl⟩ : ∃ n, deeper = n + 1 := ⟨deeper - 1, by omega⟩
    have inner := ih (Nat.le_of_succ_le_succ le)
    refine steady_word.bind fun place => ?_
    split
    · exact Foretells.bind_pure steady_terminal _
    · exact Foretells.bind_pure steady_text _
    · exact (foretells_decodeList inner).bind_pure _
    · exact (foretells_decodeList inner).bind_pure _
    · exact inner.bind fun _ => Foretells.bind_pure (steady_oneOf _) _
    · exact inner.bind_pure _
    · exact inner.bind fun _ => Foretells.bind_pure steady_bool _
    · exact Foretells.bind steady_precedence fun _ =>
        Foretells.bind (steady_oneOf _) fun _ => inner.bind_pure _
    · exact inner.bind fun _ => Foretells.bind steady_text fun _ => Foretells.bind_pure steady_bool _
    · exact Foretells.bind steady_text fun _ => inner.bind_pure _
    · exact foretells_throw _

/-- The depth that is taken from the bytes grows with them. -/
theorem steady_rule : rule.Steady := by
  intro bytes more
  refine foretells_decodeRule ?_ bytes more
  rw [List.length_append]
  omega

theorem steady_symbol : symbol.Steady := by
  refine steady_word.bind fun place => ?_
  split
  · exact Foretells.bind_pure steady_word Symbol.rule
  · exact Foretells.bind_pure steady_word Symbol.lexical
  · exact Foretells.bind_pure steady_word Symbol.external
  · exact foretells_throw _

theorem foretells_decodeExpr {depth deeper : ℕ} (le : depth ≤ deeper) :
    Foretells (decodeExpr depth) (decodeExpr deeper) := by
  induction depth generalizing deeper with
  | zero => exact fun _ _ => .inl rfl
  | succ depth ih =>
    obtain ⟨deeper, rfl⟩ : ∃ n, deeper = n + 1 := ⟨deeper - 1, by omega⟩
    have inner := ih (Nat.le_of_succ_le_succ le)
    refine steady_word.bind fun place => ?_
    split
    · exact Foretells.bind_pure steady_symbol _
    · exact (foretells_decodeList inner).bind_pure _
    · exact (foretells_decodeList inner).bind_pure _
    · exact inner.bind_pure _
    · exact Foretells.bind steady_precedence fun _ =>
        Foretells.bind (steady_oneOf _) fun _ => inner.bind_pure _
    · exact inner.bind fun _ => Foretells.bind steady_text fun _ => Foretells.bind_pure steady_bool _
    · exact Foretells.bind steady_text fun _ => inner.bind_pure _
    · exact foretells_throw _

theorem steady_expr : expr.Steady := by
  intro bytes more
  refine foretells_decodeExpr ?_ bytes more
  rw [List.length_append]
  omega

theorem steady_definition : definition.Steady :=
  (steady_text.pair (steady_rule.pair steady_bool)).via _ _

theorem steady_orderingEntry : orderingEntry.Steady := (steady_text.either steady_text).via _ _

theorem steady_grammar : grammar.Steady :=
  (steady_text.pair (steady_definition.list.pair (steady_rule.list.pair
    (steady_orderingEntry.list.list.pair (steady_text.list.list.pair (steady_rule.list.pair
      (steady_text.list.pair (steady_text.list.pair steady_text.option)))))))).via _ _

theorem steady_fieldInfo : fieldInfo.Steady :=
  (steady_bool.pair (steady_bool.pair ((steady_text.pair steady_bool).via _ _).list)).via _ _

theorem steady_variableRule : variableRule.Steady :=
  (steady_text.pair ((steady_oneOf _).pair (steady_expr.pair
    (steady_text.list.pair steady_fieldInfo.map)))).via _ _

theorem steady_lexicalEntry : lexicalEntry.Steady :=
  (steady_text.pair (steady_bool.pair (steady_rule.pair steady_bool))).via _ _

theorem steady_levelEntry : levelEntry.Steady := (steady_level.pair (steady_oneOf _)).via _ _

theorem steady_levelPair : levelPair.Steady :=
  (steady_level.option.pair ((steady_oneOf _).pair steady_level.option)).via _ _

theorem steady_alternative : alternative.Steady :=
  (steady_levelPair.pair (steady_bool.pair (steady_bool.pair steady_bool))).via _ _

theorem steady_tieBreak : tieBreak.Steady :=
  (steady_size.pair (steady_size.pair (steady_oneOf _))).via _ _

theorem steady_disambiguation : disambiguation.Steady :=
  (steady_text.pair (steady_word.pair
    (steady_alternative.list.pair steady_tieBreak.list))).via _ _

theorem steady_externalToken : externalToken.Steady := (steady_text.pair steady_bool).via _ _

theorem steady_aliasInfo : aliasInfo.Steady := (steady_bool.pair steady_text.list).via _ _

theorem steady_compiled : compiled.Steady :=
  (steady_text.pair (steady_text.pair (steady_variableRule.list.pair
    (steady_lexicalEntry.list.pair (steady_externalToken.list.pair (steady_symbol.list.pair
      (steady_symbol.option.pair (steady_text.list.list.pair (steady_text.list.map.pair
        (steady_levelEntry.map.pair (steady_disambiguation.list.pair
          steady_aliasInfo.map))))))))))).via _ _

end Codec

end Wire

open Wire.Codec

/-- Bytes of a grammar or of a compiled grammar that end too early are known to: no front part of
them is read as anything. So no bytes continue those of another grammar, and different grammars
have different bytes. -/
theorem binary_self_delimiting :
    (∀ (g : Grammar) (front : Wire.Bytes), g.Fits → front <+: g.toBinary → front ≠ g.toBinary →
      Grammar.ofBinary front = .error .endOfInput)
      ∧ (∀ (c : CompiledGrammar) (front : Wire.Bytes), c.Fits → front <+: c.toBinary →
        front ≠ c.toBinary → CompiledGrammar.ofBinary front = .error .endOfInput)
      ∧ (∀ g h : Grammar, g.Fits → h.Fits → g.toBinary <+: h.toBinary → g = h)
      ∧ ∀ c d : CompiledGrammar, c.Fits → d.Fits → c.toBinary <+: d.toBinary →
        { c with warnings := [] } = { d with warnings := [] } := by
  refine ⟨?_, ?_, ?_, ?_⟩
  · intro g front fits part strict
    exact steady_grammar.read_of_prefix (Grammar.reads_toBinary fits) part strict
  · intro c front fits part strict
    exact steady_compiled.read_of_prefix (CompiledGrammar.reads_toBinary fits) part strict
  · rintro g h fits fits' ⟨more, longer⟩
    have first := Grammar.ofBinary_toBinary fits more
    have second := Grammar.ofBinary_toBinary fits' []
    rw [longer, ← List.append_nil h.toBinary] at first
    exact Except.ok.inj (first.symm.trans second)
  · rintro c d fits fits' ⟨more, longer⟩
    have first := CompiledGrammar.ofBinary_toBinary fits more
    have second := CompiledGrammar.ofBinary_toBinary fits' []
    rw [longer, ← List.append_nil d.toBinary] at first
    exact Except.ok.inj (first.symm.trans second)

/-- A level below zero and a text of three bytes. -/
def negated : Grammar :=
  { Grammar.empty "signs" with
    rules := [⟨"sign", .prec (.integer (-70)) .left (.terminal (.literal "−")), false⟩]
    word := some "sign" }

def negatedCompiled : CompiledGrammar where
  name := "signs"
  start := "sign"
  vars := [⟨"sign", .nonterminal, .prec (.integer (-70)) .left (.symbol (.lexical 0)), [], ∅⟩]
  lexicon := [⟨"−", false, .terminal (.literal "−"), false⟩]
  externals := []
  extras := [.lexical 300]
  word := some (.rule 0)
  conflicts := []
  supertypes := ∅
  levels := .ofList [("low", ⟨-70, .right⟩)]
  precedence := []
  aliases := ∅
  warnings := [.named .unreachableRule "other" []]

theorem fits_negated (word : Option String) (short : word = some "sign" ∨ word = none) :
    { negated with word }.Fits where
  rules := by
    have level : IsLevel (-70) := by simp [IsLevel]
    simpa [negated, Rule.Fits, Rule.precedences, Precedence.Fits] using level
  extras := by simp [negated, Grammar.empty]
  externals := by simp [negated, Grammar.empty]
  short := by
    rcases short with rfl | rfl
    · decide +kernel
    · decide +kernel

theorem fits_negatedCompiled (word : Option Symbol) (short : word = some (.rule 0) ∨ word = none) :
    { negatedCompiled with word }.Fits where
  bodies := by
    have level : IsLevel (-70) := by simp [IsLevel]
    have body : (Expr.prec (.integer (-70)) .left (.symbol (.lexical 0))).Fits :=
      ⟨by simpa [Expr.precedences, Precedence.Fits] using level, by simp [Expr.symbols, Symbol.Fits]⟩
    simpa [negatedCompiled] using body
  contents := by simp [negatedCompiled, Rule.Fits, Rule.precedences]
  extras := by simp [negatedCompiled, Symbol.Fits]
  word := by rcases short with rfl | rfl <;> simp [Symbol.Fits]
  levels := by
    change ∀ e ∈ [("low", Level.mk (-70) .right)], IsLevel e.2.level
    simp [IsLevel]
  tables := by simp [negatedCompiled]
  short := by
    rcases short with rfl | rfl
    · decide +kernel
    · decide +kernel

/-- Cut in the middle of the text, and in the middle of the number of the extra. -/
theorem binary_self_delimiting_negated :
    Grammar.ofBinary (negated.toBinary.take 22) = .error .endOfInput
      ∧ CompiledGrammar.ofBinary (negatedCompiled.toBinary.take 45) = .error .endOfInput
      ∧ ¬ negated.toBinary <+: { negated with word := none }.toBinary
      ∧ ¬ { negatedCompiled with word := none }.toBinary <+: negatedCompiled.toBinary := by
  obtain ⟨cut, cutCompiled, apart, apartCompiled⟩ := binary_self_delimiting
  have fits := fits_negated (some "sign") (.inl rfl)
  have fitsCompiled := fits_negatedCompiled (some (.rule 0)) (.inl rfl)
  have strict {n : ℕ} {bytes : Wire.Bytes} (h : n < bytes.length) : bytes.take n ≠ bytes := by
    intro same
    have long := congrArg List.length same
    rw [List.length_take_of_le (Nat.le_of_lt h)] at long
    omega
  refine ⟨cut _ _ fits (List.take_prefix _ _) (strict (by decide +kernel)),
    cutCompiled _ _ fitsCompiled (List.take_prefix _ _) (strict (by decide +kernel)),
    fun longer => ?_, fun longer => ?_⟩
  · have same := apart _ _ fits (fits_negated none (.inr rfl)) longer
    cases congrArg Grammar.word same
  · have same := apartCompiled _ _ (fits_negatedCompiled none (.inr rfl)) fitsCompiled longer
    cases congrArg CompiledGrammar.word same

end Productions
