import Productions.Proofs.Lowering.Closed
import Productions.Proofs.Lowering.Run
import Productions.Proofs.Lowering.Tokens
import Productions.Proofs.Normal.Bounds
import Productions.Proofs.Subtrees
import Productions.Symbols.Resolution

/-! Contents of lexical entries as they are built. References are followed into bodies until one
leads to a name of another kind or back to a rule that is being replaced; these are the ones that
are reported. Without them a content derives the terminal strings that it was written for. -/
namespace Productions

open scoped Computability

namespace Rule

theorem mem_occurrences_iff_children {name : String} {r : Rule} :
    name ∈ r.occurrences ↔ symbol name = r ∨ ∃ c ∈ r.children, name ∈ c.occurrences := by
  cases r <;> simp [occurrences, children, occurrencesAll_eq_flatMap, eq_comm]

theorem mem_occurrences_iff {name : String} (r : Rule) :
    name ∈ r.occurrences ↔ Within (symbol name) r := by
  rw [exists_within_iff (fun _ => mem_occurrences_iff_children) r]
  simp

def IsForeign : Rule → Prop
  | symbol _ | token _ _ | aliased _ _ _ | field _ _ => True
  | _ => False

theorem Closed.not_isForeign {r : Rule} (h : Closed r) : ∀ s, Within s r → ¬ s.IsForeign := by
  induction h with
  | terminal =>
    rw [forall_within_iff]
    exact ⟨id, by simp [children]⟩
  | seq _ ih | choice _ ih =>
    rw [forall_within_iff]
    exact ⟨id, ih⟩
  | repeated _ ih | optional _ ih | prec _ ih =>
    rw [forall_within_iff]
    exact ⟨id, by simpa [children] using ih⟩

end Rule

namespace TokenContent

/-- What a rule becomes inside a token, with the reports on the way, while the rules of a chain are
being replaced. There is no bound on the length of the chain, so a rule expands only where following
its references comes to an end. -/
inductive Expands (t : SymbolTable) (bodies : OrderedMap String Rule) (owner : String) :
    List String → Rule → Rule → List Diagnostic → Prop where
  | terminal {chain} (value) : Expands t bodies owner chain (.terminal value) (.terminal value) []
  | other {chain name} (kind : isLexical t name = false) :
      Expands t bodies owner chain (.symbol name) .blank
        [.about .invalidTokenContent name [owner] []]
  | again {chain name} (kind : isLexical t name = true) (mem : name ∈ chain) :
      Expands t bodies owner chain (.symbol name) .blank
        [.about .invalidTokenContent name [owner] ["`" ++ name ++ "` refers back to itself"]]
  | missing {chain name} (kind : isLexical t name = true) (apart : name ∉ chain)
      (absent : bodies.get? name = none) : Expands t bodies owner chain (.symbol name) .blank []
  | body {chain name body content ds} (kind : isLexical t name = true) (apart : name ∉ chain)
      (get : bodies.get? name = some body)
      (inner : Expands t bodies owner (chain ++ [name]) body content ds) :
      Expands t bodies owner chain (.symbol name) content ds
  | seqNil {chain} : Expands t bodies owner chain (.seq []) (.seq []) []
  | seqCons {chain r rs s ss ds es} (head : Expands t bodies owner chain r s ds)
      (tail : Expands t bodies owner chain (.seq rs) (.seq ss) es) :
      Expands t bodies owner chain (.seq (r :: rs)) (.seq (s :: ss)) (ds ++ es)
  | choiceNil {chain} : Expands t bodies owner chain (.choice []) (.choice []) []
  | choiceCons {chain r rs s ss ds es} (head : Expands t bodies owner chain r s ds)
      (tail : Expands t bodies owner chain (.choice rs) (.choice ss) es) :
      Expands t bodies owner chain (.choice (r :: rs)) (.choice (s :: ss)) (ds ++ es)
  | repeated {chain r s ds} (repetition) (inner : Expands t bodies owner chain r s ds) :
      Expands t bodies owner chain (.repeated r repetition) (.repeated s repetition) ds
  | optional {chain r s ds} (inner : Expands t bodies owner chain r s ds) :
      Expands t bodies owner chain (.optional r) (.optional s) ds
  | prec {chain r s ds} (value assoc) (inner : Expands t bodies owner chain r s ds) :
      Expands t bodies owner chain (.prec value assoc r) (.prec value assoc s) ds
  | token {chain r s ds} (immediate) (inner : Expands t bodies owner chain r s ds) :
      Expands t bodies owner chain (.token r immediate) s ds
  | aliased {chain r s ds} (value named) (inner : Expands t bodies owner chain r s ds) :
      Expands t bodies owner chain (.aliased r value named) s ds
  | field {chain r s ds} (name) (inner : Expands t bodies owner chain r s ds) :
      Expands t bodies owner chain (.field name r) s ds

def IsMaterial (t : SymbolTable) (name : String) : Prop :=
  t.kind? name = some .token ∨ t.kind? name = some .lexical

inductive Leads (t : SymbolTable) (bodies : OrderedMap String Rule) :
    Rule → List String → String → Prop where
  | last {rule name} (mem : Rule.Within (.symbol name) rule) : Leads t bodies rule [] name
  | through {rule k path name} (mem : Rule.Within (.symbol k) rule) (kind : IsMaterial t k)
      (rest : Leads t bodies (bodies.getD k .blank) path name) :
      Leads t bodies rule (k :: path) name

/-- References lead to a name of another kind, or back to a rule they came through. -/
def Faulty (t : SymbolTable) (bodies : OrderedMap String Rule) (chain : List String)
    (rule : Rule) : Prop :=
  ∃ path name, Leads t bodies rule path name ∧ (¬ IsMaterial t name ∨ name ∈ chain ++ path)

variable {t : SymbolTable} {bodies : OrderedMap String Rule} {owner name : String}
  {chain : List String} {rule content : Rule} {ds : List Diagnostic}

section Close

variable {replace : String → Rule} {found : String → List Diagnostic}

theorem expands_seq {rules : List Rule} (each : ∀ r ∈ rules,
      Expands t bodies owner chain r (close replace r) (r.occurrences.flatMap found)) :
    Expands t bodies owner chain (.seq rules) (close replace (.seq rules))
      ((Rule.seq rules).occurrences.flatMap found) := by
  rw [close, Rule.occurrences]
  induction rules with
  | nil => exact .seqNil
  | cons r rs ih =>
    rw [closeAll, Rule.occurrencesAll, List.flatMap_append]
    exact .seqCons (each r (by simp)) (ih fun s hs => each s (by simp [hs]))

theorem expands_choice {rules : List Rule} (each : ∀ r ∈ rules,
      Expands t bodies owner chain r (close replace r) (r.occurrences.flatMap found)) :
    Expands t bodies owner chain (.choice rules) (close replace (.choice rules))
      ((Rule.choice rules).occurrences.flatMap found) := by
  rw [close, Rule.occurrences]
  induction rules with
  | nil => exact .choiceNil
  | cons r rs ih =>
    rw [closeAll, Rule.occurrencesAll, List.flatMap_append]
    exact .choiceCons (each r (by simp)) (ih fun s hs => each s (by simp [hs]))

/-- A rule expands where each of its references does. -/
theorem expands_close (rule : Rule) (each : ∀ k ∈ rule.occurrences,
      Expands t bodies owner chain (.symbol k) (replace k) (found k)) :
    Expands t bodies owner chain rule (close replace rule) (rule.occurrences.flatMap found) := by
  have inside {rules : List Rule} (each : ∀ k ∈ Rule.occurrencesAll rules,
      Expands t bodies owner chain (.symbol k) (replace k) (found k)) :
      ∀ r ∈ rules, ∀ k ∈ r.occurrences,
        Expands t bodies owner chain (.symbol k) (replace k) (found k) := by
    intro r hr k hk
    apply each
    rw [Rule.occurrencesAll_eq_flatMap]
    exact List.mem_flatMap.2 ⟨r, hr, hk⟩
  induction rule with
  | terminal value => exact .terminal value
  | symbol name =>
    have one := each name (by simp [Rule.occurrences])
    simpa [Rule.occurrences, close] using one
  | seq members ih => exact expands_seq fun r hr => ih r hr (inside each r hr)
  | choice members ih => exact expands_choice fun r hr => ih r hr (inside each r hr)
  | repeated content repetition ih => exact .repeated repetition (ih each)
  | optional content ih => exact .optional (ih each)
  | prec value assoc content ih => exact .prec value assoc (ih each)
  | token content immediate ih => exact .token immediate (ih each)
  | aliased content value named ih => exact .aliased value named (ih each)
  | field name content ih => exact .field name (ih each)

end Close

/-- Following a reference comes to an end, since each rule on the way leaves fewer to follow. -/
theorem expands_reference (fuel : Nat) (enough : bodies.unseen chain < fuel) (name : String) :
    Expands t bodies owner chain (.symbol name) (replacement t bodies fuel chain name)
      (referenceReports t bodies owner fuel chain name) := by
  induction fuel generalizing chain name with
  | zero => exact absurd enough (Nat.not_lt_zero _)
  | succ fuel ih =>
    rw [replacement, referenceReports, usable?]
    by_cases kind : isLexical t name = true
    · by_cases mem : name ∈ chain
      · simpa [kind, mem] using Expands.again kind mem
      · cases get : bodies.get? name with
        | none => simpa [kind, mem] using Expands.missing kind mem get
        | some body =>
          have usable : usable? t bodies chain name = some body := by
            simp [usable?, kind, mem, get]
          have fewer := unseen_lt_of_usable? usable
          have each (k : String) : Expands t bodies owner (chain ++ [name]) (.symbol k)
              (replacement t bodies fuel (chain ++ [name]) k)
              (referenceReports t bodies owner fuel (chain ++ [name]) k) := ih (by omega) k
          have inner := expands_close body fun k _ => each k
          simpa [kind, mem] using Expands.body kind mem get inner
    · simpa [kind] using Expands.other (by simpa using kind)

theorem expands_of (t : SymbolTable) (bodies : OrderedMap String Rule) (owner : String)
    (chain : List String) (rule : Rule) :
    Expands t bodies owner chain rule (TokenContent.of t bodies chain rule)
      (reports t bodies owner chain rule) := by
  have enough := bodies.unseen_le_size chain
  exact expands_close rule fun k _ => expands_reference _ (by omega) k

theorem isLexical_iff : isLexical t name = true ↔ IsMaterial t name := by
  simp [isLexical, IsMaterial]

theorem faulty_iff : Faulty t bodies chain rule ↔ ∃ k ∈ rule.occurrences,
    ¬ IsMaterial t k ∨ k ∈ chain ∨ Faulty t bodies (chain ++ [k]) (bodies.getD k .blank) := by
  constructor
  · rintro ⟨path, name, leads, fault⟩
    cases leads with
    | last mem =>
      refine ⟨name, (Rule.mem_occurrences_iff rule).2 mem, ?_⟩
      rw [List.append_nil] at fault
      exact fault.imp_right .inl
    | @through _ k path _ mem kind rest =>
      refine ⟨k, (Rule.mem_occurrences_iff rule).2 mem, .inr (.inr ⟨path, name, rest, ?_⟩)⟩
      rwa [List.append_assoc]
  · rintro ⟨k, mem, fault⟩
    have within := (Rule.mem_occurrences_iff rule).1 mem
    by_cases kind : IsMaterial t k
    · rcases fault with other | again | ⟨path, name, rest, fault⟩
      · exact absurd kind other
      · exact ⟨[], k, .last within, .inr (List.mem_append_left _ again)⟩
      · rw [List.append_assoc] at fault
        exact ⟨k :: path, name, .through within kind rest, fault⟩
    · exact ⟨[], k, .last within, .inl kind⟩

theorem faulty_symbol_iff : Faulty t bodies chain (.symbol name) ↔ ¬ IsMaterial t name
    ∨ name ∈ chain ∨ Faulty t bodies (chain ++ [name]) (bodies.getD name .blank) := by
  rw [faulty_iff]
  simp [Rule.occurrences]

/-- Only the references of a rule count. -/
theorem faulty_congr {r s : Rule} (same : r.occurrences = s.occurrences) :
    Faulty t bodies chain r ↔ Faulty t bodies chain s := by
  rw [faulty_iff, faulty_iff, same]

theorem faulty_of_append {r s u : Rule} (same : r.occurrences = s.occurrences ++ u.occurrences) :
    Faulty t bodies chain r ↔ Faulty t bodies chain s ∨ Faulty t bodies chain u := by
  rw [faulty_iff, same, faulty_iff, faulty_iff]
  simp only [List.mem_append, or_and_right, exists_or]

theorem faulty_seq_cons {r : Rule} {rs : List Rule} : Faulty t bodies chain (.seq (r :: rs))
    ↔ Faulty t bodies chain r ∨ Faulty t bodies chain (.seq rs) :=
  faulty_of_append rfl

theorem faulty_choice_cons {r : Rule} {rs : List Rule} : Faulty t bodies chain (.choice (r :: rs))
    ↔ Faulty t bodies chain r ∨ Faulty t bodies chain (.choice rs) :=
  faulty_of_append rfl

theorem not_faulty_of_nil {r : Rule} (none : r.occurrences = []) : ¬ Faulty t bodies chain r := by
  rw [faulty_iff, none]
  simp

theorem not_faulty_blank : ¬ Faulty t bodies chain .blank := not_faulty_of_nil rfl

/-- An expansion reports something exactly if the references of the rule are faulty. -/
theorem Expands.reported (h : Expands t bodies owner chain rule content ds) :
    ds ≠ [] ↔ Faulty t bodies chain rule := by
  induction h with
  | terminal | seqNil | choiceNil => exact iff_of_false (not_not.2 rfl) (not_faulty_of_nil rfl)
  | other kind =>
    rw [faulty_symbol_iff, ← isLexical_iff]
    simp [kind]
  | again kind mem =>
    rw [faulty_symbol_iff]
    simp [mem]
  | @missing _ name kind apart absent =>
    have blank : bodies.getD name .blank = Rule.blank := by rw [OrderedMap.getD, absent]; rfl
    rw [faulty_symbol_iff, ← isLexical_iff, blank]
    simp [kind, apart, not_faulty_blank]
  | @body _ name body _ _ kind apart get _ ih =>
    have same : bodies.getD name .blank = body := by rw [OrderedMap.getD, get]; rfl
    rw [faulty_symbol_iff, ← isLexical_iff, same, ih]
    simp [kind, apart]
  | seqCons _ _ head tail =>
    rw [faulty_seq_cons, ← head, ← tail, ne_eq, List.append_eq_nil_iff, not_and_or]
  | choiceCons _ _ head tail =>
    rw [faulty_choice_cons, ← head, ← tail, ne_eq, List.append_eq_nil_iff, not_and_or]
  | repeated _ _ ih | optional _ ih | prec _ _ _ ih | token _ _ ih | aliased _ _ _ ih
  | field _ _ ih => exact ih.trans (faulty_congr rfl)

def reference (bodies : OrderedMap String Rule) (name : String) : Reference :=
  .rule (bodies.getD name .blank)

/-- Without reports, what a rule expands to has the language of the rule. -/
theorem Expands.bared_language (h : Expands t bodies owner chain rule content ds)
    (quiet : ds = []) : bared (content.language (annotated fun _ => 0))
      = bared (rule.language (annotated (Rule.derivedFrom (reference bodies)))) := by
  induction h with
  | terminal | seqNil | choiceNil => rfl
  | other | again => cases quiet
  | @missing _ name kind apart absent =>
    have blank : bodies.getD name .blank = Rule.blank := by rw [OrderedMap.getD, absent]; rfl
    have same : Rule.derivedFrom (reference bodies) name = 1 := by
      rw [Rule.derivedFrom_eq, reference, blank]
      rfl
    exact congrArg bared same.symm
  | @body _ name body _ _ kind apart get _ ih =>
    have own : bodies.getD name .blank = body := by rw [OrderedMap.getD, get]; rfl
    have same : Rule.derivedFrom (reference bodies) name
        = body.language (annotated (Rule.derivedFrom (reference bodies))) := by
      rw [Rule.derivedFrom_eq, reference, own]
      rfl
    exact (ih quiet).trans (congrArg bared same.symm)
  | seqCons _ _ head tail =>
    obtain ⟨first, rest⟩ := List.append_eq_nil_iff.1 quiet
    have tail := tail rest
    rw [Rule.language, Rule.language] at tail
    rw [Rule.language, Rule.language, Rule.productLanguage, Rule.productLanguage, bared_mul,
      bared_mul, head first, tail]
  | choiceCons _ _ head tail =>
    obtain ⟨first, rest⟩ := List.append_eq_nil_iff.1 quiet
    have tail := tail rest
    rw [Rule.language, Rule.language] at tail
    rw [Rule.language, Rule.language, Rule.unionLanguage, Rule.unionLanguage, bared_add,
      bared_add, head first, tail]
  | repeated repetition _ ih =>
    cases repetition with
    | zeroOrMore => rw [Rule.language, Rule.language, bared_kstar, bared_kstar, ih quiet]
    | oneOrMore =>
      rw [Rule.language, Rule.language, bared_mul, bared_mul, bared_kstar, bared_kstar, ih quiet]
  | optional _ ih => rw [Rule.language, Rule.language, bared_add, bared_add, ih quiet]
  | prec _ _ _ ih =>
    rw [Rule.language, Rule.language]
    simp only [annotated, bared_enclosed]
    exact ih quiet
  | token _ _ ih => exact (ih quiet).trans (bared_bared _).symm
  | aliased _ _ _ ih | field _ _ ih => exact (ih quiet).trans (bared_enclosed _ _).symm

theorem close_split (replace : String → Rule) (r : Rule) :
    close replace (split r).1 = close replace r := by
  induction r with
  | prec value assoc content ih => rw [split, close, close, ih]
  | _ => rfl

theorem occurrences_split (r : Rule) : (split r).1.occurrences = r.occurrences := by
  induction r with
  | prec value assoc content ih => exact ih
  | _ => rfl

/-- Taking the token from around a content makes no difference for what it becomes. -/
theorem of_split (r : Rule) :
    TokenContent.of t bodies chain (split r).1 = TokenContent.of t bodies chain r :=
  close_split _ r

theorem reports_split (r : Rule) :
    reports t bodies owner chain (split r).1 = reports t bodies owner chain r := by
  rw [reports, reports, occurrences_split]

/-- What comes of building a content: how it was built, its shape, what was reported and what it
derives. -/
structure Built (t : SymbolTable) (bodies : OrderedMap String Rule) (owner : String)
    (chain : List String) (source content : Rule) (ds : List Diagnostic) : Prop where
  expands : ∃ expanded, Expands t bodies owner chain source expanded ds
    ∧ expanded.canonicalize = content
  canonical : content.isCanonical = true
  closed : ∀ s, Rule.Within s content → ¬ s.IsForeign
  kind : ∀ d ∈ ds, d.kind = .invalidTokenContent
  reported : ds ≠ [] ↔ Faulty t bodies chain source
  derives : ds = [] → ∀ w, (∃ u, content.Derives (fun _ => .nothing) u ∧ Letter.bare u = w)
    ↔ ∃ u, source.Derives (reference bodies) u ∧ Letter.bare u = w

theorem built_of (t : SymbolTable) (bodies : OrderedMap String Rule) (owner : String)
    (chain : List String) (source : Rule) :
    Built t bodies owner chain source (TokenContent.of t bodies chain source).canonicalize
      (reports t bodies owner chain source) := by
  have expands := expands_of t bodies owner chain source
  have closed := closed_of t bodies chain source
  refine ⟨⟨_, expands, rfl⟩, Rule.canonical_iff.1 (Rule.canonical_canonicalize _),
    closed.canonicalize.not_isForeign, fun d hd => kind_of_mem_reports hd, expands.reported, ?_⟩
  intro quiet w
  have same : bared (contentLanguage (TokenContent.of t bodies chain source).canonicalize)
      = bared (source.language (annotated (Rule.derivedFrom (reference bodies)))) := by
    rw [contentLanguage_canonicalize, contentLanguage_eq]
    exact expands.bared_language quiet
  have source_iff (u : List Letter) : source.Derives (reference bodies) u
      ↔ u ∈ source.language (annotated (Rule.derivedFrom (reference bodies))) :=
    Rule.derives_iff_mem
  simp only [source_iff]
  exact Set.ext_iff.1 same w

end TokenContent

namespace Lowering

open TokenContent

variable {n : Naming} {s : Lowering}

/-- A token inside a rule leads to an anonymous entry of its content. -/
theorem exists_entry_of_token {owner : String} {sugar : Rule → StateM Lowering Expr}
    {source : Rule} {immediate : Bool} : ∃ id entry s',
      (lowerWith n owner sugar (.token source immediate)).run s = (.symbol (.lexical id), s')
        ∧ s'.lexicon.get? id = some entry ∧ entry.named = false ∧ entry.immediate = immediate
        ∧ entry.content = n.innerContent source
        ∧ s'.reports = s.reports ++ n.innerReports owner source := by
  have found := Lexicon.findAnonymous?_internAnonymous s.lexicon (n.innerContent source) immediate
    owner
  obtain ⟨entry, get, anonymous, content, flag⟩ := Lexicon.exists_of_findAnonymous? found
  have run : (lowerWith n owner sugar (.token source immediate)).run s
      = (.symbol (.lexical (s.lexicon.internAnonymous (n.innerContent source) immediate owner).1),
        ⟨(s.lexicon.internAnonymous (n.innerContent source) immediate owner).2,
          s.reports ++ n.innerReports owner source⟩) := by
    rw [lowerWith]
    rfl
  exact ⟨_, entry, _, run, get, anonymous, flag, content, rfl⟩

/-- A token rule without an entry gets one of its own, with the content of its body. -/
theorem exists_entry_of_tokenRule {name : String} (new : s.lexicon.findNamed? name = none) :
    ∃ id entry s', (namedToken n name).run s = (id, s')
      ∧ s'.lexicon.get? id = some entry ∧ entry.named = true ∧ entry.name = name
      ∧ entry.content = n.namedContent name ∧ s'.reports = s.reports ++ n.namedReports name := by
  have interned : s.lexicon.internNamed name (n.namedContent name) (n.tokenBody name).2
      = s.lexicon.push ⟨name, true, n.namedContent name, (n.tokenBody name).2⟩ :=
    Lexicon.internNamed_of_new new
  have run : (namedToken n name).run s
      = ((s.lexicon.internNamed name (n.namedContent name) (n.tokenBody name).2).1,
        ⟨(s.lexicon.internNamed name (n.namedContent name) (n.tokenBody name).2).2,
          s.reports ++ n.namedReports name⟩) := by
    rw [namedToken]
    refine run_bind_eq_iff.2 ⟨s, s, rfl, ?_⟩
    rw [new]
    rfl
  rw [interned] at run
  have last : (s.lexicon.entries ++ [⟨name, true, n.namedContent name, (n.tokenBody name).2⟩])[
      s.lexicon.size]? = some ⟨name, true, n.namedContent name, (n.tokenBody name).2⟩ :=
    List.getElem?_concat_length
  exact ⟨_, _, _, run, last, rfl, rfl, rfl, rfl⟩

/-- Lexical entries are built with contents that are closed, whether they come from a token inside
a rule or from a token rule, which then is the first of the rules that are being replaced. -/
theorem entries_built (n : Naming) (s : Lowering) :
    (∀ owner sugar source immediate, ∃ id entry s',
      (lowerWith n owner sugar (.token source immediate)).run s = (.symbol (.lexical id), s')
        ∧ s'.lexicon.get? id = some entry ∧ entry.named = false ∧ entry.immediate = immediate
        ∧ ∃ ds, s'.reports = s.reports ++ ds
          ∧ Built n.table n.bodies owner [] source entry.content ds)
      ∧ ∀ name, s.lexicon.findNamed? name = none → ∃ id entry s',
        (namedToken n name).run s = (id, s')
          ∧ s'.lexicon.get? id = some entry ∧ entry.named = true ∧ entry.name = name
          ∧ ∃ ds, s'.reports = s.reports ++ ds
            ∧ Built n.table n.bodies name [name] (n.bodies.getD name .blank) entry.content ds := by
  constructor
  · intro owner sugar source immediate
    obtain ⟨id, entry, s', run, get, anonymous, flag, content, reports⟩ := exists_entry_of_token
    refine ⟨id, entry, s', run, get, anonymous, flag, _, reports, ?_⟩
    rw [content]
    exact built_of n.table n.bodies owner [] source
  · intro name new
    obtain ⟨id, entry, s', run, get, named, same, content, reports⟩ := exists_entry_of_tokenRule new
    refine ⟨id, entry, s', run, get, named, same, _, reports, ?_⟩
    rw [content]
    have built := built_of n.table n.bodies name [name] (n.bodies.getD name .blank)
    rwa [← of_split, ← reports_split] at built

/-- Comments that may stand inside comments. -/
def nestedComments : Grammar where
  name := "comments"
  rules := [⟨"comment", .token (.seq [.terminal (.literal "("),
    .repeated (.choice [.terminal (.literal "x"), .field "inner" (.symbol "comment")]) .zeroOrMore,
    .terminal (.literal ")")]) false, false⟩]
  extras := []
  precedences := []
  conflicts := []
  externals := []
  inlined := []
  supertypes := []
  word := none

def nestedNaming : Naming :=
  ⟨(Symbols.resolve nestedComments).1, (Symbols.resolve nestedComments).1.bodies, ∅, []⟩

/-- A token rule that refers to itself is reported. -/
theorem entries_built_nestedNaming : ∃ id entry s',
    (namedToken nestedNaming "comment").run start = (id, s')
      ∧ s'.lexicon.get? id = some entry ∧ entry.content.isCanonical = true ∧ s'.reports ≠ [] := by
  obtain ⟨id, entry, s', run, get, -, -, ds, reports, built⟩ :=
    (entries_built nestedNaming start).2 "comment" rfl
  have occurrences : (nestedNaming.bodies.getD "comment" .blank).occurrences = ["comment"] := by
    cbv
  have inside : Rule.Within (.symbol "comment") (nestedNaming.bodies.getD "comment" .blank) :=
    (Rule.mem_occurrences_iff _).1 (by rw [occurrences]; simp)
  have faulty : Faulty nestedNaming.table nestedNaming.bodies ["comment"]
      (nestedNaming.bodies.getD "comment" .blank) :=
    ⟨[], "comment", .last inside, .inr (by simp)⟩
  refine ⟨id, entry, s', run, get, built.canonical, ?_⟩
  rw [reports]
  exact List.append_ne_nil_of_right_ne_nil _ (built.reported.2 faulty)

end Lowering

end Productions
