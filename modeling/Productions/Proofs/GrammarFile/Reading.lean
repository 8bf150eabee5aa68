import Productions.Proofs.GrammarFile.Records
import Productions.Proofs.Json.Reading

/-! A grammar is read from every text of a grammar file for it. Records in a text are read as
records from values are, member by member. -/
namespace Productions.GrammarFile

open Json (Content DataFault Reader Blanks Opens Stops Listed Member Prints Quotes NestsWithin)
open Json.Reader (Reads ReadsAfter)

section Values

variable {bound : ℕ} {c : Content} {text : List Char}

theorem quotes_of_prints {strict : Bool} {s : String} (h : Prints strict (.string s) text) :
    Quotes strict s text := by
  cases h
  assumption

theorem text_reads {s : String} (h : Prints true (.string s) text) :
    Reads GrammarFile.text s text := by
  cases quotes_of_prints h with
  | quoted spells =>
    refine Json.Reader.reads_of_first rfl fun rest _ => ?_
    rw [if_pos rfl]
    simp only [List.append_assoc, List.cons_append, List.nil_append]
    rw [Json.Reader.bind_of_ok (Json.Reader.skipOne_cons _ _)]
    exact Json.Reader.stringRest_of_spells spells rest

theorem name_reads {s : String} (shown : ShowsName s c) (h : Prints true c text) :
    Reads GrammarFile.text s text := by
  cases shown
  exact text_reads h

theorem optionalText_reads {s : Option String} (shown : ShowsOptional s c)
    (h : Prints true c text) : Reads optionalText s text := by
  cases shown with
  | null =>
    cases h
    exact Json.Reader.reads_of_first rfl fun _ _ => rfl
  | text =>
    have read := (text_reads h).map some
    cases quotes_of_prints h with
    | quoted spells =>
      refine Json.Reader.reads_of_first rfl fun rest stop => ?_
      rw [if_neg (by decide)]
      exact read.nil_append stop

theorem listOf_reads {α : Type} {item : Reader α} {shows : α → Content → Prop} {as : List α}
    {depth : ℕ} (shown : ShowsList shows as c) (h : Prints true c text)
    (nests : NestsWithin (depth + 1) c) (room : text.length ≤ bound)
    (reads : ∀ {a c t}, shows a c → Prints true c t → NestsWithin depth c → t.length ≤ bound →
      Reads item a t) : Reads (listOf bound item) as text := by
  cases shown with
  | @array cs items =>
    simp only [NestsWithin] at nests
    cases h with
    | @array _ text blanks listed before =>
      simp only [List.length_cons, List.length_append] at room
      have inner : Listed (fun a t => Opens t ∧ Reads item a t) true as text :=
        listed.forall₂ items fun shown ha short prints =>
          ⟨prints.opens, reads shown prints (nests _ ha) (by omega)⟩
      have count := inner.length_le fun _ _ h => h.1.ne_nil
      refine Json.Reader.reads_of_first rfl fun rest _ => ?_
      rw [if_pos rfl]
      simp only [List.append_assoc, List.cons_append, List.nil_append]
      exact Json.Reader.arrayOf_append inner (by omega) before

end Values

section Record

variable {τ β : Type} {f : Family τ β} {bound depth : ℕ}

theorem typeName_reads {name : String} {type : τ} {text : List Char}
    (known : f.ofName name = .ok type) (h : Prints true (.string name) text) :
    Reads (typeName f) (name, type) text := by
  cases quotes_of_prints h with
  | quoted spells =>
    refine Json.Reader.reads_of_first rfl fun rest _ => ?_
    rw [if_pos rfl]
    simp only [List.append_assoc, List.cons_append, List.nil_append]
    rw [Json.Reader.bind_of_ok (Json.Reader.skipOne_cons _ _),
      Json.Reader.bind_of_ok (Json.Reader.stringRest_of_spells spells rest), known]
    rfl

def SplitsInto (f : Family τ β) (depth : ℕ) (result : (String × τ) × List (String × Content))
    (parts : Parts τ) (members : List (String × Content)) : Prop :=
  splitType f parts.type parts.others members = .ok result ∧
    ∀ m ∈ members, NestsWithin depth m.2 ∧ (m.1 = typeKey → ∃ name, m.2 = .string name)

theorem recordMember_reads {result : (String × τ) × List (String × Content)} {parts : Parts τ}
    {m : String × Content} {members : List (String × Content)} {text : List Char}
    (splits : SplitsInto f depth result parts (m :: members)) (h : Prints true m.2 text)
    (room : text.length ≤ bound) :
    ∃ parts', SplitsInto f depth result parts' members ∧
      ReadsAfter (recordMember f (Json.Reader.content bound depth) parts m.1) parts' text := by
  obtain ⟨key, c⟩ := m
  obtain ⟨splits, each⟩ := splits
  have rest := fun m hm => each m (List.mem_cons_of_mem _ hm)
  obtain ⟨nests, isName⟩ := each (key, c) List.mem_cons_self
  rw [splitType] at splits
  by_cases eq : key = typeKey
  · obtain ⟨name, rfl⟩ := isName eq
    obtain rfl := eq
    rw [if_pos rfl] at splits
    split at splits
    · contradiction
    · rename_i new
      cases known : f.ofName name with
      | error fault =>
        rw [typeOf, known] at splits
        contradiction
      | ok type =>
        rw [typeOf, known] at splits
        refine ⟨⟨some (name, type), parts.others⟩, ⟨splits, rest⟩, ?_⟩
        have read := (typeName_reads known h).bind_pure fun t => (⟨some t, parts.others⟩ : Parts τ)
        rw [recordMember, if_pos rfl, if_neg new]
        exact read.after_colon
  · rw [if_neg eq] at splits
    refine ⟨⟨parts.type, (key, c) :: parts.others⟩, ⟨splits, rest⟩, ?_⟩
    have read := (Json.Reader.content_reads h nests room).bind_pure fun c =>
      (⟨parts.type, (key, c) :: parts.others⟩ : Parts τ)
    rw [recordMember, if_neg eq]
    exact read.after_colon

theorem record_reads {members : List (String × Content)} {text : List Char} {b : β}
    (h : Prints true (.object members) text) (nests : NestsWithin (depth + 1) (.object members))
    (room : text.length ≤ bound)
    (typed : ∀ m ∈ members, m.1 = typeKey → ∃ name, m.2 = .string name)
    (value : ofContent f (ruleOf (depth + 1)) (.object members) = .ok b) :
    Reads (record f bound depth) b text := by
  simp only [NestsWithin] at nests
  cases h with
  | @object _ text blanks listed before =>
    simp only [List.length_cons, List.length_append] at room
    have count := listed.length_le fun _ _ h => h.ne_nil
    have enough : members.length < bound := by omega
    have short : text.length ≤ bound := by omega
    rw [ofContent] at value
    cases splits : splitType f none [] members with
    | error fault =>
      rw [splits] at value
      contradiction
    | ok result =>
      rw [splits] at value
      have start : SplitsInto f depth result ⟨none, []⟩ members :=
        ⟨splits, fun m hm => ⟨nests m hm, typed m hm⟩⟩
      refine Json.Reader.reads_of_first rfl fun rest _ => ?_
      obtain ⟨⟨type, others⟩, ⟨done, -⟩, read⟩ := Json.Reader.objectOf_append
        (SplitsInto f depth result) (fun splits v => recordMember_reads splits v.1 v.2)
        (Member.within listed short) start enough before rest
      rw [if_pos rfl]
      simp only [List.append_assoc, List.cons_append, List.nil_append]
      rw [Json.Reader.bind_of_ok read]
      cases type with
      | none => cases done
      | some type =>
        cases done
        change orFail (recordOf f _ _ _ _) rest = _
        have made : recordOf f (ruleOf (depth + 1)) type.1 type.2 (.object others.reverse) = .ok b :=
          value
        rw [made]
        rfl

theorem IsRecord.typed {name : String} {shown : List (String × Content)} {omitted : List String}
    {c : Content} (h : IsRecord name shown omitted c) (untyped : typeKey ∉ shown.map Prod.fst) :
    ∃ members, c = .object members ∧ ∀ m ∈ members, m.1 = typeKey → ∃ name, m.2 = .string name := by
  cases h with
  | @object members unknown perm others =>
    refine ⟨members, rfl, fun m hm eq => ?_⟩
    rcases List.mem_cons.1 (perm.mem_iff.1 hm) with rfl | hm
    · exact ⟨name, rfl⟩
    · rcases List.mem_append.1 hm with hm | hm
      · exact absurd (List.mem_map.2 ⟨m, hm, eq⟩) untyped
      · exact absurd eq (others m hm).1

theorem rule_reads {r : Rule} {c : Content} {text : List Char} (shown : ShowsRule r c)
    (h : Prints true c text) (nests : NestsWithin (depth + 1) c) (room : text.length ≤ bound) :
    Reads (record ruleFamily bound depth) r text := by
  have value := ruleOf_of_showsRule shown (nestsWithin_succ nests)
  obtain ⟨members, rfl, typed⟩ : ∃ members, c = .object members ∧
      ∀ m ∈ members, m.1 = typeKey → ∃ name, m.2 = .string name := by
    cases shown with
    | _ => rename_i record; exact record.typed (by simp [typeKey])
  exact record_reads h nests room typed value

theorem entry_reads {e : OrderingEntry} {c : Content} {text : List Char} (shown : ShowsEntry e c)
    (h : Prints true c text) (nests : NestsWithin (depth + 1) c) (room : text.length ≤ bound) :
    Reads (record entryFamily bound depth) e text := by
  have value := entryOf_of_showsEntry (ruleOf (depth + 1)) shown
  obtain ⟨members, rfl, typed⟩ : ∃ members, c = .object members ∧
      ∀ m ∈ members, m.1 = typeKey → ∃ name, m.2 = .string name := by
    cases shown with
    | _ => rename_i record; exact record.typed (by simp [typeKey])
  exact record_reads h nests room typed value

end Record

section Declarations

variable {bound : ℕ} {c : Content} {text : List Char}

theorem extras_reads {rs : List Rule} (shown : ShowsList ShowsRule rs c) (h : Prints true c text)
    (nests : NestsWithin (nestLimit - 1) c) (room : text.length ≤ bound) :
    Reads (extras bound) rs text :=
  listOf_reads shown h nests room fun shown h nests room => rule_reads shown h nests room

theorem orderings_reads {os : List (List OrderingEntry)}
    (shown : ShowsList (ShowsList ShowsEntry) os c) (h : Prints true c text)
    (nests : NestsWithin (nestLimit - 1) c) (room : text.length ≤ bound) :
    Reads (orderings bound) os text :=
  listOf_reads shown h nests room fun shown h nests room =>
    listOf_reads shown h nests room fun shown h nests room => entry_reads shown h nests room

theorem names_reads {depth : ℕ} {names : List String} (shown : ShowsList ShowsName names c)
    (h : Prints true c text) (nests : NestsWithin (depth + 1) c) (room : text.length ≤ bound) :
    Reads (GrammarFile.names bound) names text :=
  listOf_reads shown h nests room fun shown h _ _ => name_reads shown h

theorem nameSets_reads {sets : List (List String)}
    (shown : ShowsList (ShowsList ShowsName) sets c) (h : Prints true c text)
    (nests : NestsWithin (nestLimit - 1) c) (room : text.length ≤ bound) :
    Reads (nameSets bound) sets text :=
  listOf_reads shown h nests room fun shown h nests room => names_reads shown h nests room

def RulesLeft (all found : List Definition) (ms : List (String × Content)) : Prop :=
  (∃ left, List.Forall₂ ShowsDefinition left ms ∧ found.reverse ++ left = all) ∧
    ∀ m ∈ ms, NestsWithin (nestLimit - 2) m.2

theorem ruleEntry_reads {all found : List Definition} {m : String × Content}
    {ms : List (String × Content)} (left : RulesLeft all found (m :: ms)) (h : Prints true m.2 text)
    (room : text.length ≤ bound) :
    ∃ found', RulesLeft all found' ms ∧ ReadsAfter (ruleEntry bound found m.1) found' text := by
  obtain ⟨⟨left, shown, all⟩, nests⟩ := left
  cases shown with
  | @cons d _ left _ first more =>
    obtain ⟨name, body, hidden⟩ := d
    obtain ⟨key, shown, hides⟩ := first
    obtain rfl : m.1 = name := key
    obtain rfl : hidden = Grammar.isHiddenName m.1 := hides
    have read := (rule_reads shown h (nests m List.mem_cons_self) room).bind_pure fun body =>
      (⟨m.1, body, Grammar.isHiddenName m.1⟩ :: found : List Definition)
    refine ⟨_, ⟨⟨left, more, ?_⟩, fun m hm => nests m (List.mem_cons_of_mem _ hm)⟩,
      read.after_colon⟩
    rw [← all]
    simp

theorem rules_reads {rules : List Definition} {ms : List (String × Content)}
    (shown : List.Forall₂ ShowsDefinition rules ms) (h : Prints true (.object ms) text)
    (nests : NestsWithin (nestLimit - 1) (.object ms)) (room : text.length ≤ bound) :
    Reads (GrammarFile.rules bound) rules text := by
  cases h with
  | @object _ text blanks listed before =>
    simp only [List.length_cons, List.length_append] at room
    have count := listed.length_le fun _ _ h => h.ne_nil
    have enough : ms.length < bound := by omega
    have short : text.length ≤ bound := by omega
    have start : RulesLeft rules [] ms := ⟨⟨rules, shown, rfl⟩, nests⟩
    refine Json.Reader.reads_of_first rfl fun rest _ => ?_
    obtain ⟨found, ⟨⟨left, none, all⟩, -⟩, read⟩ := Json.Reader.objectOf_append
      (RulesLeft rules) (fun left v => ruleEntry_reads left v.1 v.2)
      (Member.within listed short) start enough before rest
    rw [if_pos rfl]
    simp only [List.append_assoc, List.cons_append, List.nil_append]
    rw [Json.Reader.bind_of_ok read]
    cases none
    rw [← all, List.append_nil]
    rfl

end Declarations

def draftOf (g : Grammar) (met : List String) : Draft where
  name := if "name" ∈ met then some g.name else none
  rules := if "rules" ∈ met then some g.rules else none
  extras := if "extras" ∈ met then some g.extras else none
  precedences := if "precedences" ∈ met then some g.precedences else none
  conflicts := if "conflicts" ∈ met then some g.conflicts else none
  externals := if "externals" ∈ met then some g.externals else none
  inlined := if "inline" ∈ met then some g.inlined else none
  supertypes := if "supertypes" ∈ met then some g.supertypes else none
  word := if "word" ∈ met then some g.word else none

/-- The keys that have been met do not come again, and all that will not come have nothing to
declare. -/
structure DeclarationsLeft (g : Grammar) (met : List String) (ms : List (String × Content)) :
    Prop where
  shown : ∀ m ∈ ms, m.1 ∈ declarationKeys →
    Declares g m.1 m.2 ∧ NestsWithin (nestLimit - 1) m.2
  once : ((ms.map Prod.fst).filter (· ∈ declarationKeys)).Nodup
  fresh : ∀ m ∈ ms, m.1 ∈ declarationKeys → m.1 ∉ met
  complete : ∀ key ∈ declarationKeys, key ∉ met → key ∉ ms.map Prod.fst → Omits g key

namespace DeclarationsLeft

variable {g : Grammar} {met : List String} {m : String × Content} {ms : List (String × Content)}

theorem known (left : DeclarationsLeft g met (m :: ms)) (isKnown : m.1 ∈ declarationKeys) :
    DeclarationsLeft g (m.1 :: met) ms := by
  obtain ⟨shown, once, fresh, complete⟩ := left
  rw [List.map_cons, List.filter_cons, if_pos (by simpa using isKnown), List.nodup_cons] at once
  refine ⟨fun n hn => shown n (List.mem_cons_of_mem _ hn), once.2, fun n hn isKnown' => ?_,
    fun key isKey out out' => ?_⟩
  · refine List.not_mem_cons_of_ne_of_not_mem (fun eq => once.1 ?_)
      (fresh n (List.mem_cons_of_mem _ hn) isKnown')
    exact List.mem_filter.2 ⟨List.mem_map.2 ⟨n, hn, eq⟩, by simpa using isKnown⟩
  · refine complete key isKey (List.not_mem_of_not_mem_cons out)
      (List.not_mem_cons_of_ne_of_not_mem (List.ne_of_not_mem_cons out) out')

theorem unknown (left : DeclarationsLeft g met (m :: ms)) (isUnknown : m.1 ∉ declarationKeys) :
    DeclarationsLeft g met ms := by
  obtain ⟨shown, once, fresh, complete⟩ := left
  rw [List.map_cons, List.filter_cons, if_neg (by simpa using isUnknown)] at once
  refine ⟨fun n hn => shown n (List.mem_cons_of_mem _ hn), once,
    fun n hn => fresh n (List.mem_cons_of_mem _ hn), fun key isKey out out' => ?_⟩
  refine complete key isKey out (List.not_mem_cons_of_ne_of_not_mem ?_ out')
  rintro rfl
  exact isUnknown isKey

theorem build_eq (left : DeclarationsLeft g met []) : (draftOf g met).build = .ok g := by
  have value {α : Type} {a b : α} {key : String} (isKey : key ∈ declarationKeys)
      (omits : Omits g key → a = b) : (if key ∈ met then some a else none).getD b = a := by
    split
    · rfl
    · rename_i out
      exact (omits (left.complete key isKey out List.not_mem_nil)).symm
  have needed {key : String} (isKey : key ∈ declarationKeys) (needed : ¬ Omits g key) :
      key ∈ met := by
    by_contra out
    exact needed (left.complete key isKey out List.not_mem_nil)
  have name : "name" ∈ met := needed (by decide) (by simp [Omits])
  have rules : "rules" ∈ met := needed (by decide) (by simp [Omits])
  simp only [Draft.build, draftOf, if_pos name, if_pos rules]
  rw [value (by decide) id, value (by decide) id, value (by decide) id, value (by decide) id,
    value (by decide) id, value (by decide) id, value (by decide) id]
  rfl

end DeclarationsLeft

section Document

variable {bound : ℕ} {g : Grammar} {text : List Char}

theorem once_reads {α : Type} {known : Option α} {key : String} {value : Reader α} {a : α}
    (new : known = none) (h : Reads value a text) :
    ReadsAfter (once known key value) (some a) text := by
  rw [once, new]
  exact (h.bind_pure some).after_colon

theorem declared_reads {α : Type} {key : String} {met : List String} {old : Option α} {a : α}
    {value : Reader α} {k : Option α → Draft}
    (declared : declaration bound (draftOf g met) key = do return k (← once old key value))
    (new : old = none) (drafted : draftOf g (key :: met) = k (some a)) (read : Reads value a text) :
    ReadsAfter (declaration bound (draftOf g met) key) (draftOf g (key :: met)) text := by
  rw [declared, drafted]
  exact (once_reads new read).bind_pure k

/-- A known key fills its place in the draft, any other is passed over with its value. -/
theorem declaration_reads {met : List String} {m : String × Content}
    {ms : List (String × Content)} (left : DeclarationsLeft g met (m :: ms))
    (h : Prints (m.1 ∈ declarationKeys) m.2 text) (room : text.length ≤ bound) :
    ∃ met', DeclarationsLeft g met' ms ∧
      ReadsAfter (declaration bound (draftOf g met) m.1) (draftOf g met') text := by
  obtain ⟨key, c⟩ := m
  by_cases isKnown : key ∈ declarationKeys
  · obtain ⟨declares, nests⟩ := left.shown (key, c) List.mem_cons_self isKnown
    have new := left.fresh (key, c) List.mem_cons_self isKnown
    refine ⟨key :: met, left.known isKnown, ?_⟩
    simp only [isKnown, decide_true] at h declares new ⊢
    cases declares with
    | name shown =>
      exact declared_reads rfl (if_neg new) (by simp [draftOf]) (name_reads shown h)
    | rules shown =>
      exact declared_reads rfl (if_neg new) (by simp [draftOf]) (rules_reads shown h nests room)
    | extras shown =>
      exact declared_reads rfl (if_neg new) (by simp [draftOf]) (extras_reads shown h nests room)
    | precedences shown =>
      exact declared_reads rfl (if_neg new) (by simp [draftOf]) (orderings_reads shown h nests room)
    | conflicts shown =>
      exact declared_reads rfl (if_neg new) (by simp [draftOf]) (nameSets_reads shown h nests room)
    | externals shown =>
      exact declared_reads rfl (if_neg new) (by simp [draftOf]) (extras_reads shown h nests room)
    | inlined shown =>
      exact declared_reads rfl (if_neg new) (by simp [draftOf]) (names_reads shown h nests room)
    | supertypes shown =>
      exact declared_reads rfl (if_neg new) (by simp [draftOf]) (names_reads shown h nests room)
    | word shown =>
      exact declared_reads rfl (if_neg new) (by simp [draftOf]) (optionalText_reads shown h)
  · refine ⟨met, left.unknown isKnown, ?_⟩
    have loose := Json.Reader.skip_reads h room room
    have read := (loose.bind_pure fun _ => draftOf g met).after_colon
    simp only
    unfold declaration
    split
    all_goals first | exact read | exact absurd (by decide) isKnown

theorem Declarations.start {members : List (String × Content)} (h : Declarations g members) :
    DeclarationsLeft g [] members where
  shown m hm isKnown := ⟨h.shown m hm isKnown, h.nested m hm isKnown⟩
  once := h.once
  fresh _ _ _ := List.not_mem_nil
  complete key isKey _ out := h.complete key isKey out

theorem grammar_append {members : List (String × Content)} {inside before : List Char}
    (declarations : Declarations g members)
    (prints : Listed (Member true fun m => Prints (m.1 ∈ declarationKeys) m.2) true members text)
    (leading : Blanks before) (inner : Blanks inside) (room : text.length < bound)
    (after : List Char) :
    grammar bound (before ++ '\x7b' :: (text ++ (inside ++ '\x7d' :: after))) = .ok (g, after) := by
  have count := prints.length_le fun _ _ h => h.ne_nil
  have enough : members.length < bound := by omega
  have short : text.length ≤ bound := by omega
  obtain ⟨d, ⟨met, rfl, left⟩, read⟩ := Json.Reader.objectOf_append (s := Draft.empty)
    (fun d ms => ∃ met, d = draftOf g met ∧ DeclarationsLeft g met ms)
    (fun ⟨_, drafted, left⟩ v => by
      obtain ⟨met, left, read⟩ := declaration_reads left v.1 v.2
      exact ⟨_, ⟨met, rfl, left⟩, drafted ▸ read⟩)
    (Member.within prints short) ⟨[], rfl, declarations.start⟩ enough inner after
  rw [grammar, Json.Reader.bind_of_ok (Json.Reader.peekValue_append leading rfl), if_pos rfl,
    Json.Reader.bind_of_ok read, left.build_eq]
  rfl

/-- A grammar is read from every text of a grammar file for it. -/
theorem ofFile_of_renders {s : String} (h : Renders g s.toList) : Grammar.ofFile s = .ok g := by
  generalize eq : s.toList = all at h
  cases h with
  | @object before members text inside after leading declarations prints inner trailing =>
    have room : text.length < s.length + 1 := by
      rw [← String.length_toList, eq]
      simp only [List.length_append, List.length_cons]
      omega
    have read := grammar_append declarations prints leading inner room after
    rw [Grammar.ofFile, eq, grammarOnly, Json.Reader.bind_of_ok read,
      Json.Reader.bind_of_ok (Json.Reader.peek_blanks trailing)]
    rfl

end Document

/-! A file with an unknown key first, whose number is too large, and the type of each record last. -/

def spareFile : String :=
  "\x7b\"note\":1e400,\"rules\":\x7b\"a\":\x7b\"content\":\x7b\"context_name\":\"r\"," ++
    "\"content\":\x7b\"value\":\"x\",\"type\":\"STRING\"\x7d,\"type\":\"RESERVED\"\x7d," ++
    "\"type\":\"REPEAT\"\x7d\x7d,\"name\":\"g\"\x7d"

def spareGrammar : Grammar :=
  ⟨"g", [⟨"a", .repeated (.terminal (.literal "x")) .zeroOrMore, false⟩], [], [], [], [], [], [],
    none⟩

section Plain

variable {strict : Bool} {a : Content} {s key : String} {text more : List Char}
  {value : String × Content → List Char → Prop} {ms : List (String × Content)}

def isPlain (s : String) : Bool := s.toList.all fun c => c != '"' && c != '\\' && 0x20 ≤ c.toNat

theorem quotes_plain (plain : isPlain s = true) :
    Quotes strict s ('"' :: (s.toList ++ ['"'])) := by
  refine .quoted (.of_plain fun c hc => ?_)
  have solid := List.all_eq_true.1 plain c hc
  simpa [and_assoc] using solid

theorem prints_plain (plain : isPlain s = true) :
    Prints strict (.string s) ('"' :: (s.toList ++ ['"'])) :=
  .string (quotes_plain plain)

theorem first_plain (plain : isPlain key = true) (h : value (key, a) text)
    (rest : Listed (Member strict value) false ms more) :
    Listed (Member strict value) true ((key, a) :: ms)
      ([] ++ (('"' :: (key.toList ++ ['"']) ++ ([] ++ ':' :: ([] ++ text))) ++ more)) :=
  .cons (.start Json.blanks_nil)
    (.pair (quotes_plain plain) Json.blanks_nil Json.blanks_nil h) rest

theorem next_plain (plain : isPlain key = true) (h : value (key, a) text)
    (rest : Listed (Member strict value) false ms more) :
    Listed (Member strict value) false ((key, a) :: ms)
      ([] ++ ',' :: [] ++ (('"' :: (key.toList ++ ['"']) ++ ([] ++ ':' :: ([] ++ text))) ++ more)) :=
  .cons (.comma Json.blanks_nil Json.blanks_nil)
    (.pair (quotes_plain plain) Json.blanks_nil Json.blanks_nil h) rest

theorem isRecord_type_last (type : String) (fields : List (String × Content)) :
    IsRecord type fields [] (.object (fields ++ [(typeKey, .string type)])) := by
  have perm : (fields ++ [(typeKey, Content.string type)]).Perm
      ((typeKey, .string type) :: (fields ++ [])) := by
    rw [List.append_nil]
    exact List.perm_append_singleton _ _
  exact .object perm fun _ h => absurd h List.not_mem_nil

end Plain

theorem prints_too_large :
    Prints false (.float ((Json.float? false ['1'] [] 400).getD (1 / 0))) "1e400".toList := by
  have tail : Json.IsTail ['4', '0', '0'] := ⟨List.all_eq_true.1 rfl, by decide⟩
  have one : Json.IsWhole ['1'] := ⟨⟨List.all_eq_true.1 rfl, by decide⟩, by decide⟩
  have float : Json.Floating false _ (Json.signText false ++ _) :=
    .number one .absent (.present (.inl rfl) .none tail) (fun _ h => absurd h (by simp)) (by simp)
  exact .float float

theorem renders_spareGrammar : Renders spareGrammar spareFile.toList := by
  have literal : Prints true (.object [("value", .string "x"), ("type", .string "STRING")]) _ :=
    .object (first_plain (by decide) (prints_plain (by decide)) <|
      next_plain (by decide) (prints_plain (by decide)) .nil) Json.blanks_nil
  have reserved : Prints true (.object [("context_name", .string "r"), ("content", _),
      ("type", .string "RESERVED")]) _ :=
    .object (first_plain (by decide) (prints_plain (by decide)) <|
      next_plain (by decide) literal <|
      next_plain (by decide) (prints_plain (by decide)) .nil) Json.blanks_nil
  have repeated : Prints true (.object [("content", _), ("type", .string "REPEAT")]) _ :=
    .object (first_plain (by decide) reserved <|
      next_plain (by decide) (prints_plain (by decide)) .nil) Json.blanks_nil
  have rules : Prints true (.object [("a", _)]) _ :=
    .object (first_plain (by decide) repeated .nil) Json.blanks_nil
  have file : Listed (Member true fun m => Prints (m.1 ∈ declarationKeys) m.2) true
      [("note", _), ("rules", _), ("name", .string "g")] _ :=
    first_plain (by decide) prints_too_large <|
      next_plain (by decide) rules <|
      next_plain (by decide) (prints_plain (by decide)) .nil
  have whole (declarations) := Renders.object (g := spareGrammar) Json.blanks_nil declarations file
    Json.blanks_nil Json.blanks_nil
  refine cast (congrArg (Renders spareGrammar) (by decide +kernel)) (whole ?_)
  refine ⟨fun m hm isKnown => ?_, fun m hm isKnown => ?_, by decide, ?_⟩
  · simp only [List.mem_cons, List.not_mem_nil, or_false] at hm
    rcases hm with rfl | rfl | rfl
    · exact absurd isKnown (by decide)
    · have literal := ShowsRule.literal (isRecord_type_last "STRING" [("value", .string "x")])
      have reserved := ShowsRule.reserved literal
        (isRecord_type_last "RESERVED" [("context_name", .string "r"), _])
      have repeated := ShowsRule.repeated (List.mem_cons_self : ("REPEAT", _) ∈ _)
        reserved (isRecord_type_last "REPEAT" _)
      exact .rules (.cons ⟨rfl, repeated, by decide +kernel⟩ .nil)
    · exact .name rfl
  · simp only [List.mem_cons, List.not_mem_nil, or_false] at hm
    rcases hm with rfl | rfl | rfl
    · exact absurd isKnown (by decide)
    · simp [NestsWithin, nestLimit]
    · trivial
  · simp [declarationKeys, Omits, spareGrammar]

theorem ofFile_spareFile :
    Renders spareGrammar spareFile.toList ∧ Grammar.ofFile spareFile = .ok spareGrammar :=
  ⟨renders_spareGrammar, ofFile_of_renders renders_spareGrammar⟩

theorem prints_lone_surrogate :
    Prints false (.string (String.ofList [Char.ofNat 0xFFFD])) "\"\\ud800\"".toList := by
  have unit : Json.HexUnit ['d', '8', '0', '0'] (0x1000 * 13 + 0x100 * 8 + 0x10 * 0 + 0) :=
    .digits (.inl rfl) (.inl rfl) (.inl rfl) (.inl rfl)
  have spells : Json.Spells false (String.ofList [Char.ofNat 0xFFFD]).toList
      ['\\', 'u', 'd', '8', '0', '0'] := by
    rw [String.toList_ofList]
    exact .alone unit rfl (by decide) .nil
  exact .string (.quoted spells)

/-- The value of an unknown key of a rule is read and not only passed over. So a file is refused for
a number out of range and for half a pair of surrogates there, although both are well-formed. -/
theorem ofFile_unreadable_spare :
    (∃ c, Prints false c "1e400".toList) ∧ (∃ c, Prints false c "\"\\ud800\"".toList) ∧
      Grammar.ofFile
        "\x7b\"name\":\"g\",\"rules\":\x7b\"a\":\x7b\"type\":\"BLANK\",\"note\":null\x7d\x7d\x7d" =
          .ok ⟨"g", [⟨"a", .blank, false⟩], [], [], [], [], [], [], none⟩ ∧
      Grammar.ofFile
        "\x7b\"name\":\"g\",\"rules\":\x7b\"a\":\x7b\"type\":\"BLANK\",\"note\":1e400\x7d\x7d\x7d" =
          .error .syntaxError ∧
      Grammar.ofFile ("\x7b\"name\":\"g\",\"rules\":\x7b\"a\":\x7b\"type\":\"BLANK\"," ++
        "\"note\":\"\\ud800\"\x7d\x7d\x7d") = .error .syntaxError :=
  ⟨⟨_, prints_too_large⟩, ⟨_, prints_lone_surrogate⟩, by decide +kernel, by decide +kernel,
    by decide +kernel⟩

end Productions.GrammarFile
