import Productions.Ordered.Set

/-! Grammars as they are written: rules in order, whose names may repeat, and declarations about
them. Nothing has been looked up yet. A rule is a tree of combinators over terminals and names of
other rules. The blank rule is the empty sequence. A canonical rule has no optional part, no
repetition of one or more, no sequence directly inside a sequence, no choice directly inside a
choice, no sequence or choice of one member, no alternative twice, and no token directly inside a
token. The test for equality is written by hand because members of a sequence or choice are nested
in a list. -/
namespace Productions

inductive Terminal where
  | literal (text : String)
  | pattern (value : String) (flags : Option String)
  deriving DecidableEq, Repr

inductive Repetition where
  | zeroOrMore
  | oneOrMore
  deriving DecidableEq, Repr

/-- `dynamic` defers a tie to the run of the parser. -/
inductive Assoc where
  | none
  | left
  | right
  | dynamic
  deriving DecidableEq, Repr, Inhabited

inductive Precedence where
  | integer (level : Int)
  | name (name : String)
  deriving DecidableEq, Repr

inductive Rule where
  | terminal (terminal : Terminal)
  | symbol (name : String)
  | seq (members : List Rule)
  | choice (members : List Rule)
  | repeated (content : Rule) (repetition : Repetition)
  | optional (content : Rule)
  | token (content : Rule) (immediate : Bool)
  | prec (value : Precedence) (assoc : Assoc) (content : Rule)
  | aliased (content : Rule) (value : String) (named : Bool)
  | field (name : String) (content : Rule)

namespace Rule

def blank : Rule := seq []

instance : Inhabited Rule := ⟨blank⟩

def isBlank : Rule → Bool
  | seq members => members.isEmpty
  | _ => false

def children : Rule → List Rule
  | terminal _ | symbol _ => []
  | seq members | choice members => members
  | repeated content _ | optional content | token content _ | prec _ _ content
  | aliased content _ _ | field _ content => [content]

mutual

def same : Rule → Rule → Bool
  | terminal s, terminal t => s == t
  | symbol m, symbol n => m == n
  | seq rs, seq ss => sameAll rs ss
  | choice rs, choice ss => sameAll rs ss
  | repeated r p, repeated s q => same r s && p == q
  | optional r, optional s => same r s
  | token r i, token s j => same r s && i == j
  | prec v a r, prec w b s => v == w && a == b && same r s
  | aliased r v i, aliased s w j => same r s && v == w && i == j
  | field m r, field n s => m == n && same r s
  | _, _ => false

def sameAll : List Rule → List Rule → Bool
  | [], [] => true
  | r :: rs, s :: ss => same r s && sameAll rs ss
  | _, _ => false

end

mutual

theorem same_self : (r : Rule) → same r r = true
  | terminal _ | symbol _ => by simp [same]
  | seq rs | choice rs => by simp [same, sameAll_self rs]
  | repeated r _ | optional r | token r _ | prec _ _ r | aliased r _ _ | field _ r => by
    simp [same, same_self r]

theorem sameAll_self : (rs : List Rule) → sameAll rs rs = true
  | [] => rfl
  | r :: rs => by simp [sameAll, same_self r, sameAll_self rs]

end

mutual

theorem eq_of_same : {r s : Rule} → same r s = true → r = s
  | terminal _, s, h => by cases s <;> simp_all [same]
  | symbol _, s, h => by cases s <;> simp_all [same]
  | seq rs, s, h => by
    cases s <;> simp only [same, Bool.false_eq_true] at h
    rw [eq_of_sameAll h]
  | choice rs, s, h => by
    cases s <;> simp only [same, Bool.false_eq_true] at h
    rw [eq_of_sameAll h]
  | repeated r p, s, h => by
    cases s <;> simp only [same, Bool.false_eq_true, Bool.and_eq_true, beq_iff_eq] at h
    rw [eq_of_same h.1, h.2]
  | optional r, s, h => by
    cases s <;> simp only [same, Bool.false_eq_true] at h
    rw [eq_of_same h]
  | token r i, s, h => by
    cases s <;> simp only [same, Bool.false_eq_true, Bool.and_eq_true, beq_iff_eq] at h
    rw [eq_of_same h.1, h.2]
  | prec v a r, s, h => by
    cases s <;> simp only [same, Bool.false_eq_true, Bool.and_eq_true, beq_iff_eq] at h
    rw [h.1.1, h.1.2, eq_of_same h.2]
  | aliased r v i, s, h => by
    cases s <;> simp only [same, Bool.false_eq_true, Bool.and_eq_true, beq_iff_eq] at h
    rw [eq_of_same h.1.1, h.1.2, h.2]
  | field m r, s, h => by
    cases s <;> simp only [same, Bool.false_eq_true, Bool.and_eq_true, beq_iff_eq] at h
    rw [h.1, eq_of_same h.2]

theorem eq_of_sameAll : {rs ss : List Rule} → sameAll rs ss = true → rs = ss
  | [], ss, h => by cases ss <;> simp_all [sameAll]
  | r :: rs, ss, h => by
    cases ss with
    | nil => simp [sameAll] at h
    | cons s ss =>
      simp only [sameAll, Bool.and_eq_true] at h
      rw [eq_of_same h.1, eq_of_sameAll h.2]

end

instance : DecidableEq Rule := fun r s =>
  if h : same r s then isTrue (eq_of_same h)
  else isFalse fun e => h (e ▸ same_self r)

/-- What holds of a rule if it holds of its direct subrules holds of every rule. -/
@[elab_as_elim, induction_eliminator]
theorem induction {motive : Rule → Prop} (terminal : ∀ t, motive (terminal t))
    (symbol : ∀ name, motive (symbol name))
    (seq : ∀ members, (∀ r ∈ members, motive r) → motive (seq members))
    (choice : ∀ members, (∀ r ∈ members, motive r) → motive (choice members))
    (repeated : ∀ content repetition, motive content → motive (repeated content repetition))
    (optional : ∀ content, motive content → motive (optional content))
    (token : ∀ content immediate, motive content → motive (token content immediate))
    (prec : ∀ value assoc content, motive content → motive (prec value assoc content))
    (aliased : ∀ content value named, motive content → motive (aliased content value named))
    (field : ∀ name content, motive content → motive (field name content)) (r : Rule) :
    motive r := by
  apply Rule.rec (motive_1 := motive) (motive_2 := fun rules => ∀ r ∈ rules, motive r) terminal
    symbol seq choice repeated optional token prec aliased field
  · exact fun r hr => absurd hr List.not_mem_nil
  · intro head tail first rest r hr
    rcases List.mem_cons.1 hr with rfl | hr
    · exact first
    · exact rest r hr

mutual

def occurrences : Rule → List String
  | terminal _ => []
  | symbol name => [name]
  | seq members | choice members => occurrencesAll members
  | repeated content _ | optional content | token content _ | prec _ _ content
  | aliased content _ _ | field _ content => occurrences content

def occurrencesAll : List Rule → List String
  | [] => []
  | rule :: rules => occurrences rule ++ occurrencesAll rules

end

theorem occurrencesAll_eq_flatMap (rules : List Rule) :
    occurrencesAll rules = rules.flatMap occurrences := by
  induction rules with
  | nil => rfl
  | cons r rs ih => simp [occurrencesAll, ih]

/-- The names a rule refers to, in order of first occurrence. -/
def symbols (rule : Rule) : OrderedSet String := OrderedSet.ofList rule.occurrences

def references (rule : Rule) (name : String) : Bool := rule.symbols.contains name

mutual

def terminals : Rule → List Terminal
  | terminal t => [t]
  | symbol _ => []
  | seq members | choice members => terminalsAll members
  | repeated content _ | optional content | token content _ | prec _ _ content
  | aliased content _ _ | field _ content => terminals content

def terminalsAll : List Rule → List Terminal
  | [] => []
  | rule :: rules => terminals rule ++ terminalsAll rules

end

mutual

def hasField : Rule → Bool
  | terminal _ | symbol _ => false
  | field _ _ => true
  | seq members | choice members => anyHasField members
  | repeated content _ | optional content | token content _ | prec _ _ content
  | aliased content _ _ => hasField content

def anyHasField : List Rule → Bool
  | [] => false
  | rule :: rules => hasField rule || anyHasField rules

end

/-- A token or a terminal, possibly under precedence annotations. -/
def isTokenShaped : Rule → Bool
  | terminal _ | token _ _ => true
  | prec _ _ content => isTokenShaped content
  | _ => false

def isAliasedSymbol : Rule → Bool
  | symbol _ => true
  | aliased content _ _ => isAliasedSymbol content
  | _ => false

/-- A nonempty choice between symbols, each possibly aliased. -/
def isSymbolChoice : Rule → Bool
  | choice members => !members.isEmpty && members.all isAliasedSymbol
  | _ => false

def seqParts : Rule → List Rule
  | seq members => members
  | rule => [rule]

def choiceParts : Rule → List Rule
  | choice members => members
  | rule => [rule]

def makeSeq (members : List Rule) : Rule :=
  match members.flatMap seqParts with
  | [rule] => rule
  | parts => seq parts

/-- A flat choice that keeps the first of equal alternatives; a single one stands alone. -/
def makeChoice (members : List Rule) : Rule :=
  match (OrderedSet.ofList (members.flatMap choiceParts)).toList with
  | [rule] => rule
  | parts => choice parts

/-- A token around a canonical rule: two nested tokens are one, immediate if either is. -/
def makeToken (immediate : Bool) : Rule → Rule
  | token content inner => token content (immediate || inner)
  | content => token content immediate

/-- A repetition of a canonical rule: one or more is the rule followed by zero or more. -/
def makeRepeated (content : Rule) : Repetition → Rule
  | .zeroOrMore => repeated content .zeroOrMore
  | .oneOrMore => makeSeq [content, repeated content .zeroOrMore]

mutual

def canonicalize : Rule → Rule
  | terminal t => terminal t
  | symbol name => symbol name
  | seq members => makeSeq (canonicalizeAll members)
  | choice members => makeChoice (canonicalizeAll members)
  | optional content => makeChoice [canonicalize content, blank]
  | repeated content repetition => makeRepeated (canonicalize content) repetition
  | token content immediate => makeToken immediate (canonicalize content)
  | prec value assoc content => prec value assoc (canonicalize content)
  | aliased content value named => aliased (canonicalize content) value named
  | field name content => field name (canonicalize content)

def canonicalizeAll : List Rule → List Rule
  | [] => []
  | rule :: rules => canonicalize rule :: canonicalizeAll rules

end

theorem canonicalizeAll_eq_map (rules : List Rule) :
    canonicalizeAll rules = rules.map canonicalize := by
  induction rules with
  | nil => rfl
  | cons r rs ih => simp [canonicalizeAll, ih]

def canonicalEq (r s : Rule) : Bool := r.canonicalize == s.canonicalize

def isCanonical (r : Rule) : Bool := r.canonicalize == r

end Rule

/-- A name of a precedence, or a rule standing for one. -/
inductive OrderingEntry where
  | name (name : String)
  | symbol (name : String)
  deriving DecidableEq, Repr

namespace OrderingEntry

def text : OrderingEntry → String
  | name n | symbol n => n

end OrderingEntry

/-- A named rule. A hidden one is replaced by its body wherever it is used. -/
structure Definition where
  name : String
  body : Rule
  hidden : Bool
  deriving DecidableEq

/-- Extras may stand between any two tokens. Orderings of precedences list the highest first.
Conflicts are sets of rules that may be ambiguous with each other. Externals are tokens from an
outside scanner. Supertypes are choices standing for any of their members. -/
structure Grammar where
  name : String
  rules : List Definition
  extras : List Rule
  precedences : List (List OrderingEntry)
  conflicts : List (List String)
  externals : List Rule
  inlined : List String
  supertypes : List String
  word : Option String
  deriving DecidableEq

namespace Grammar

def empty (name : String) : Grammar := ⟨name, [], [], [], [], [], [], [], none⟩

/-- A leading underscore in a name hides the rule. -/
def isHiddenName (name : String) : Bool := name.startsWith "_"

/-- The first rule of a name. -/
def get? (g : Grammar) (name : String) : Option Definition :=
  g.rules.find? fun d => d.name == name

end Grammar

end Productions
