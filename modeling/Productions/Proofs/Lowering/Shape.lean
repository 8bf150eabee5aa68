import Productions.Grammar.Basic
import Productions.Normal.Lexicon
import Productions.Normal.Lowering

/-! What lowering computes when it reports nothing. The symbol of a leaf can be read off the
finished lexical table, and lowering replaces leaves by their symbols. -/
namespace Productions

/-! Entries are only added at the end, so an entry that can be found keeps its number. -/

theorem findIdx?_of_grown {α : Type} {l l' : List α} (h : l <+: l') {p : α → Bool} {i : Nat}
    (hi : l.findIdx? p = some i) : l'.findIdx? p = some i := by
  obtain ⟨more, rfl⟩ := h
  simp [List.findIdx?_append, hi]

namespace Lexicon

variable {L L' : Lexicon} {content : Rule} {immediate : Bool} {owner name : String}

theorem findAnonymous?_of_grown (h : L.entries <+: L'.entries) {id : Nat}
    (found : L.findAnonymous? content immediate = some id) :
    L'.findAnonymous? content immediate = some id := by
  rw [findAnonymous?_eq] at found ⊢
  exact findIdx?_of_grown h found

theorem findNamed?_of_grown (h : L.entries <+: L'.entries) {id : Nat}
    (found : L.findNamed? name = some id) : L'.findNamed? name = some id := by
  rw [findNamed?_eq] at found ⊢
  exact findIdx?_of_grown h found

theorem exists_of_findAnonymous? {id : Nat} (h : L.findAnonymous? content immediate = some id) :
    ∃ entry, L.entries[id]? = some entry ∧ entry.named = false ∧ entry.content = content
      ∧ entry.immediate = immediate := by
  rw [findAnonymous?_eq] at h
  obtain ⟨bound, found, -⟩ := List.findIdx?_eq_some_iff_getElem.1 h
  simp only [Bool.and_eq_true, Bool.not_eq_true', beq_iff_eq] at found
  exact ⟨_, List.getElem?_eq_getElem bound, found.1.1, found.2, found.1.2⟩

theorem exists_of_findNamed? {id : Nat} (h : L.findNamed? name = some id) :
    ∃ entry, L.entries[id]? = some entry ∧ entry.named = true ∧ entry.name = name := by
  rw [findNamed?_eq] at h
  obtain ⟨bound, found, -⟩ := List.findIdx?_eq_some_iff_getElem.1 h
  simp only [Bool.and_eq_true, beq_iff_eq] at found
  exact ⟨_, List.getElem?_eq_getElem bound, found⟩

theorem findNamed?_eq_none_iff : L.findNamed? name = none
    ↔ ∀ entry ∈ L.entries, entry.named = true → entry.name ≠ name := by
  simp [findNamed?_eq, List.findIdx?_eq_none_iff]

theorem findAnonymous?_eq_none_iff : L.findAnonymous? content immediate = none
    ↔ ∀ entry ∈ L.entries, entry.named = false → entry.immediate = immediate →
      entry.content ≠ content := by
  simp [findAnonymous?_eq, List.findIdx?_eq_none_iff]

theorem isSome_findNamed? {entry : LexicalEntry} (mem : entry ∈ L.entries)
    (named : entry.named = true) : (L.findNamed? entry.name).isSome := by
  rw [Option.isSome_iff_ne_none]
  exact fun none => findNamed?_eq_none_iff.1 none entry mem named rfl

theorem isSome_findAnonymous? {entry : LexicalEntry} (mem : entry ∈ L.entries)
    (unnamed : entry.named = false) :
    (L.findAnonymous? entry.content entry.immediate).isSome := by
  rw [Option.isSome_iff_ne_none]
  exact fun none => findAnonymous?_eq_none_iff.1 none entry mem unnamed rfl rfl

theorem internAnonymous_cases (L : Lexicon) (content : Rule) (immediate : Bool) (owner : String) :
    (∃ id, L.findAnonymous? content immediate = some id
        ∧ L.internAnonymous content immediate owner = (id, L))
      ∨ (L.findAnonymous? content immediate = none
        ∧ (L.internAnonymous content immediate owner).1 = L.size
        ∧ ∃ name, (L.internAnonymous content immediate owner).2.entries
          = L.entries ++ [⟨name, false, content, immediate⟩]) := by
  unfold internAnonymous
  split <;> rename_i found
  · exact .inl ⟨_, found, rfl⟩
  · refine .inr ⟨found, ?_⟩
    split <;> exact ⟨rfl, _, rfl⟩

theorem internAnonymous_of_known {id : Nat}
    (known : L.findAnonymous? content immediate = some id) :
    L.internAnonymous content immediate owner = (id, L) := by
  unfold internAnonymous
  rw [known]

theorem internNamed_of_known {id : Nat} (known : L.findNamed? name = some id) :
    L.internNamed name content immediate = (id, L) := by
  rw [internNamed, known]

theorem internNamed_of_new (new : L.findNamed? name = none) :
    L.internNamed name content immediate = L.push ⟨name, true, content, immediate⟩ := by
  rw [internNamed, new]

theorem prefix_internAnonymous (L : Lexicon) (content : Rule) (immediate : Bool)
    (owner : String) : L.entries <+: (L.internAnonymous content immediate owner).2.entries := by
  rcases internAnonymous_cases L content immediate owner with ⟨id, -, same⟩ | ⟨-, -, name, added⟩
  · exact same ▸ List.prefix_rfl
  · exact added ▸ List.prefix_append _ _

theorem findAnonymous?_internAnonymous (L : Lexicon) (content : Rule) (immediate : Bool)
    (owner : String) :
    (L.internAnonymous content immediate owner).2.findAnonymous? content immediate
      = some (L.internAnonymous content immediate owner).1 := by
  rcases internAnonymous_cases L content immediate owner
    with ⟨id, found, same⟩ | ⟨new, size, name, added⟩
  · rw [same]
    exact found
  · rw [size]
    rw [findAnonymous?_eq] at new ⊢
    rw [added, List.findIdx?_append, new]
    simp [Lexicon.size]

theorem findNamed?_internNamed (new : L.findNamed? name = none) :
    (L.internNamed name content immediate).2.findNamed? name
      = some (L.internNamed name content immediate).1 := by
  rw [internNamed_of_new new]
  rw [findNamed?_eq] at new ⊢
  simp [push, List.findIdx?_append, new, Lexicon.size]

end Lexicon

namespace Rule

mutual

/-- The parts that lowering turns into symbols: terminals, names, and tokens as a whole. -/
def leaves : Rule → List Rule
  | terminal t => [terminal t]
  | symbol name => [symbol name]
  | token content immediate => [token content immediate]
  | seq members | choice members => leavesAll members
  | repeated content _ | optional content | prec _ _ content | aliased content _ _
  | field _ content => leaves content

def leavesAll : List Rule → List Rule
  | [] => []
  | rule :: rules => leaves rule ++ leavesAll rules

end

theorem mem_leavesAll {rules : List Rule} {leaf : Rule} :
    leaf ∈ leavesAll rules ↔ ∃ r ∈ rules, leaf ∈ r.leaves := by
  induction rules with
  | nil => simp [leavesAll]
  | cons r rs ih => simp [leavesAll, ih]

def IsLeaf : Rule → Prop
  | terminal _ | symbol _ | token _ _ => True
  | _ => False

theorem IsLeaf.leaves_eq {r : Rule} (h : r.IsLeaf) : r.leaves = [r] := by
  cases r with
  | terminal | symbol | token => rfl
  | _ => exact h.elim

mutual

theorem isLeaf_of_mem_leaves {leaf : Rule} : (r : Rule) → leaf ∈ r.leaves → leaf.IsLeaf
  | terminal _, h | symbol _, h | token _ _, h => by
    rw [List.mem_singleton.1 h]
    trivial
  | seq members, h | choice members, h => isLeaf_of_mem_leavesAll members h
  | repeated content _, h | optional content, h | prec _ _ content, h | aliased content _ _, h
  | field _ content, h => isLeaf_of_mem_leaves content h

theorem isLeaf_of_mem_leavesAll {leaf : Rule} : (rules : List Rule) →
    leaf ∈ leavesAll rules → leaf.IsLeaf
  | [], h => absurd h (by simp [leavesAll])
  | r :: rs, h => by
    rcases List.mem_append.1 h with h | h
    · exact isLeaf_of_mem_leaves r h
    · exact isLeaf_of_mem_leavesAll rs h

end

mutual

theorem mem_occurrences_of_leaf {leaf : Rule} {k : String} (hk : k ∈ leaf.occurrences) :
    (r : Rule) → leaf ∈ r.leaves → k ∈ r.occurrences
  | terminal _, h | symbol _, h | token _ _, h => by rwa [← List.mem_singleton.1 h]
  | seq members, h | choice members, h => mem_occurrencesAll_of_leaf hk members h
  | repeated content _, h | optional content, h | prec _ _ content, h | aliased content _ _, h
  | field _ content, h => mem_occurrences_of_leaf hk content h

theorem mem_occurrencesAll_of_leaf {leaf : Rule} {k : String} (hk : k ∈ leaf.occurrences) :
    (rules : List Rule) → leaf ∈ leavesAll rules → k ∈ occurrencesAll rules
  | [], h => absurd h (by simp [leavesAll])
  | r :: rs, h => by
    rw [occurrencesAll, List.mem_append]
    rcases List.mem_append.1 h with h | h
    · exact .inl (mem_occurrences_of_leaf hk r h)
    · exact .inr (mem_occurrencesAll_of_leaf hk rs h)

end

mutual

/-- No optional part and no repetition of one or more, except inside tokens. -/
def isPlain : Rule → Bool
  | terminal _ | symbol _ | token _ _ => true
  | optional _ | repeated _ .oneOrMore => false
  | seq members | choice members => arePlain members
  | repeated content .zeroOrMore | prec _ _ content | aliased content _ _ | field _ content =>
    isPlain content

def arePlain : List Rule → Bool
  | [] => true
  | rule :: rules => isPlain rule && arePlain rules

end

theorem arePlain_iff {rules : List Rule} : arePlain rules = true ↔ ∀ r ∈ rules, r.isPlain := by
  induction rules with
  | nil => simp [arePlain]
  | cons r rs ih => simp [arePlain, ih]

theorem isPlain_makeSeq {rules : List Rule} (h : ∀ r ∈ rules, r.isPlain) :
    (makeSeq rules).isPlain = true := by
  have parts : ∀ part ∈ rules.flatMap seqParts, part.isPlain := by
    intro part hpart
    obtain ⟨r, hr, hpart⟩ := List.mem_flatMap.1 hpart
    have plain := h r hr
    cases r <;> simp_all [seqParts, isPlain, arePlain_iff]
  unfold makeSeq
  split
  · rename_i r one
    exact parts r (by simp [one])
  · exact arePlain_iff.2 parts

theorem isPlain_makeChoice {rules : List Rule} (h : ∀ r ∈ rules, r.isPlain) :
    (makeChoice rules).isPlain = true := by
  have parts : ∀ part ∈ (OrderedSet.ofList (rules.flatMap choiceParts)).toList, part.isPlain := by
    intro part hpart
    rw [OrderedSet.mem_toList, OrderedSet.mem_ofList] at hpart
    obtain ⟨r, hr, hpart⟩ := List.mem_flatMap.1 hpart
    have plain := h r hr
    cases r <;> simp_all [choiceParts, isPlain, arePlain_iff]
  unfold makeChoice
  split
  · rename_i r one
    exact parts r (by simp [one])
  · exact arePlain_iff.2 parts

mutual

theorem isPlain_canonicalize : (r : Rule) → r.canonicalize.isPlain = true
  | terminal _ | symbol _ => rfl
  | seq rules => isPlain_makeSeq (isPlain_canonicalizeAll rules)
  | choice rules => isPlain_makeChoice (isPlain_canonicalizeAll rules)
  | optional content => isPlain_makeChoice fun r hr => by
    simp only [List.mem_cons, List.not_mem_nil, or_false] at hr
    rcases hr with rfl | rfl
    · exact isPlain_canonicalize content
    · rfl
  | repeated content .zeroOrMore => isPlain_canonicalize content
  | repeated content .oneOrMore => isPlain_makeSeq fun r hr => by
    simp only [List.mem_cons, List.not_mem_nil, or_false] at hr
    rcases hr with rfl | rfl
    · exact isPlain_canonicalize content
    · exact isPlain_canonicalize content
  | token content immediate => by
    rw [canonicalize]
    cases content.canonicalize <;> rfl
  | prec _ _ content | aliased content _ _ | field _ content => isPlain_canonicalize content

theorem isPlain_canonicalizeAll : (rules : List Rule) →
    ∀ r ∈ canonicalizeAll rules, r.isPlain = true
  | [], r, hr => absurd hr (by simp [canonicalizeAll])
  | rule :: rules, r, hr => by
    rcases List.mem_cons.1 hr with rfl | hr
    · exact isPlain_canonicalize rule
    · exact isPlain_canonicalizeAll rules r hr

end

end Rule

namespace Naming

theorem exists_of_externalId? {n : Naming} {name : String} {named : Bool} {id : Nat}
    (h : n.externalId? name named = some id) :
    ∃ token, n.externals[id]? = some token ∧ token.named = named ∧ token.name = name := by
  obtain ⟨⟨token, id⟩, last, rfl⟩ := Option.map_eq_some_iff.1 h
  have mem := List.mem_filter.1 (List.mem_of_getLast? last)
  simp only [Bool.and_eq_true, beq_iff_eq] at mem
  exact ⟨token, List.mem_zipIdx_iff_getElem?.1 mem.1, mem.2⟩

theorem isSome_externalId? {n : Naming} {name : String} {named : Bool}
    (mem : ⟨name, named⟩ ∈ n.externals) : (n.externalId? name named).isSome := by
  obtain ⟨id, found⟩ := List.getElem?_of_mem mem
  rw [externalId?, Option.isSome_map, List.getLast?_isSome]
  have entry : (⟨name, named⟩, id) ∈ n.externals.zipIdx := List.mem_zipIdx_iff_getElem?.2 found
  exact List.ne_nil_of_mem (List.mem_filter.2 ⟨entry, by simp⟩)

variable (n : Naming)

def tokenBody (name : String) : Rule × Bool := TokenContent.split (n.bodies.getD name .blank)

def namedContent (name : String) : Rule :=
  (TokenContent.of n.table n.bodies [name] (n.tokenBody name).1).canonicalize

def innerContent (content : Rule) : Rule :=
  (TokenContent.of n.table n.bodies [] content).canonicalize

def namedReports (name : String) : List Diagnostic :=
  TokenContent.reports n.table n.bodies name [name] (n.tokenBody name).1

def innerReports (owner : String) (content : Rule) : List Diagnostic :=
  TokenContent.reports n.table n.bodies owner [] content

def outside? : Terminal → Option Nat
  | .literal text => n.externalId? text false
  | .pattern _ _ => none

def nameIn (L : Lexicon) (name : String) : Option Symbol :=
  match n.vars.get? name with
  | some id => some (.rule id)
  | none =>
    match n.table.kind? name with
    | some .token => (L.findNamed? name).map .lexical
    | some _ => none
    | none => (n.externalId? name true).map .external

def symbolIn (L : Lexicon) : Rule → Option Symbol
  | .terminal t =>
    ((n.outside? t).map .external).or ((L.findAnonymous? (.terminal t) false).map .lexical)
  | .token content immediate =>
    (L.findAnonymous? (n.innerContent content) immediate).map .lexical
  | .symbol name => n.nameIn L name
  | _ => none

mutual

def lowered (L : Lexicon) : Rule → Expr
  | .seq members => .makeSeq (loweredAll L members)
  | .choice members => .makeChoice (loweredAll L members)
  | .repeated content _ => .repeated (lowered L content)
  | .optional content => lowered L content
  | .prec value assoc content => .prec value assoc (lowered L content)
  | .aliased content value named => .aliased (lowered L content) value named
  | .field name content => .field name (lowered L content)
  | .terminal t => ((n.symbolIn L (.terminal t)).map Expr.symbol).getD .blank
  | .token content immediate =>
    ((n.symbolIn L (.token content immediate)).map Expr.symbol).getD .blank
  | .symbol name => ((n.symbolIn L (.symbol name)).map Expr.symbol).getD .blank

def loweredAll (L : Lexicon) : List Rule → List Expr
  | [] => []
  | rule :: rules => lowered L rule :: loweredAll L rules

end

/-- A leaf that needs an entry has one, and the content of a token is in order. -/
def Placed (L : Lexicon) : Rule → Prop
  | .terminal t => (n.symbolIn L (.terminal t)).isSome
  | .token content immediate =>
    (n.symbolIn L (.token content immediate)).isSome ∧ ∃ owner, n.innerReports owner content = []
  | .symbol name =>
    n.vars.get? name = none → n.table.kind? name = some .token → (L.findNamed? name).isSome
  | _ => True

end Naming

end Productions
