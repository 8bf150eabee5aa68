import Productions.Diagnostic.Basic
import Productions.Grammar.Basic
import Productions.Normal.Basic
import Productions.Normal.Lexicon
import Productions.Symbols.Basic

/-! Lowering of rules over names to expressions over numbers. Terminals and tokens go to the lexical
table; names become variables, token rules or external tokens, and a name that is none of these
becomes the blank expression. Inside a token every reference is replaced by the body of the rule it
names, which has to be a token rule or a lexical rule outside the chain of rules being replaced;
inner tokens, aliases and fields are dropped. A reference that cannot be replaced is reported and
stands for the blank rule. -/
namespace Productions.TokenContent

mutual

/-- Replaces references and drops inner tokens, aliases and fields. -/
def close (replace : String → Rule) : Rule → Rule
  | .terminal t => .terminal t
  | .symbol name => replace name
  | .seq members => .seq (closeAll replace members)
  | .choice members => .choice (closeAll replace members)
  | .repeated content repetition => .repeated (close replace content) repetition
  | .optional content => .optional (close replace content)
  | .prec value assoc content => .prec value assoc (close replace content)
  | .token content _ | .aliased content _ _ | .field _ content => close replace content

def closeAll (replace : String → Rule) : List Rule → List Rule
  | [] => []
  | rule :: rules => close replace rule :: closeAll replace rules

end

def isLexical (t : SymbolTable) (name : String) : Bool :=
  t.kind? name == some .token || t.kind? name == some .lexical

/-- The body of a name, which may be used while the rules of `chain` are being replaced. -/
def usable? (t : SymbolTable) (bodies : OrderedMap String Rule) (chain : List String)
    (name : String) : Option Rule :=
  if isLexical t name && !chain.contains name then bodies.get? name else none

/-- What a name is replaced by. The chain never holds a name twice, so the number of bodies bounds
its length. -/
def replacement (t : SymbolTable) (bodies : OrderedMap String Rule) :
    (fuel : Nat) → (chain : List String) → String → Rule
  | 0, _, _ => .blank
  | fuel + 1, chain, name =>
    match usable? t bodies chain name with
    | some body => close (replacement t bodies fuel (chain ++ [name])) body
    | none => .blank

def referenceReports (t : SymbolTable) (bodies : OrderedMap String Rule) (owner : String) :
    (fuel : Nat) → (chain : List String) → String → List Diagnostic
  | 0, _, _ => []
  | fuel + 1, chain, name =>
    if isLexical t name && !chain.contains name then
      match bodies.get? name with
      | some body =>
        body.occurrences.flatMap (referenceReports t bodies owner fuel (chain ++ [name]))
      | none => []
    else
      [.about .invalidTokenContent name [owner]
        (if isLexical t name then ["`" ++ name ++ "` refers back to itself"] else [])]

def of (t : SymbolTable) (bodies : OrderedMap String Rule) (chain : List String) (rule : Rule) :
    Rule :=
  close (replacement t bodies (bodies.size + 1) chain) rule

def reports (t : SymbolTable) (bodies : OrderedMap String Rule) (owner : String)
    (chain : List String) (rule : Rule) : List Diagnostic :=
  rule.occurrences.flatMap (referenceReports t bodies owner (bodies.size + 1) chain)

/-- Splits the body of a token rule into content and immediate flag. Precedence stays around the
content. -/
def split : Rule → Rule × Bool
  | .token content immediate => (content, immediate)
  | .prec value assoc content =>
    let (inner, immediate) := split content
    (.prec value assoc inner, immediate)
  | rule => (rule, false)

end Productions.TokenContent

namespace Productions

/-- What names stand for: the table of symbols, the inlined bodies of the rules, the numbers of
the variables, and the external tokens. -/
structure Naming where
  table : SymbolTable
  bodies : OrderedMap String Rule
  vars : OrderedMap String Nat
  externals : List ExternalToken

/-- The number of the last external token of a name. -/
def Naming.externalId? (n : Naming) (name : String) (named : Bool) : Option Nat :=
  ((n.externals.zipIdx.filter fun e => e.1.named == named && e.1.name == name).getLast?).map
    Prod.snd

structure Lowering where
  lexicon : Lexicon
  reports : List Diagnostic

namespace Lowering

def start : Lowering := ⟨∅, []⟩

/-- Enters a token whose content may refer to rules other than those of `chain`. -/
def tokenContent (n : Naming) (owner : String) (chain : List String) (rule : Rule) :
    StateM Lowering Rule := do
  modify fun s =>
    { s with reports := s.reports ++ TokenContent.reports n.table n.bodies owner chain rule }
  return (TokenContent.of n.table n.bodies chain rule).canonicalize

def internAnonymous (content : Rule) (immediate : Bool) (owner : String) :
    StateM Lowering Symbol := do
  let s ← get
  let (id, lexicon) := s.lexicon.internAnonymous content immediate owner
  set { s with lexicon }
  return .lexical id

def namedToken (n : Naming) (name : String) : StateM Lowering Nat := do
  match (← get).lexicon.findNamed? name with
  | some id => return id
  | none =>
    let (rule, immediate) := TokenContent.split (n.bodies.getD name .blank)
    let content ← tokenContent n name [name] rule
    let s ← get
    let (id, lexicon) := s.lexicon.internNamed name content immediate
    set { s with lexicon }
    return id

/-- What a name stands for: a variable first, then a token rule; an external token only where
there is no rule of the name. -/
def resolve (n : Naming) (name : String) : StateM Lowering (Option Symbol) := do
  match n.vars.get? name with
  | some id => return some (.rule id)
  | none =>
    match n.table.kind? name with
    | some .token => return some (.lexical (← namedToken n name))
    | some _ => return none
    | none => return (n.externalId? name true).map .external

/-- A terminal: an external token of the same literal text, or else a lexical entry. -/
def terminal (n : Naming) (owner : String) (t : Terminal) : StateM Lowering Symbol :=
  let outside := match t with
    | .literal text => n.externalId? text false
    | .pattern _ _ => none
  match outside with
  | some id => pure (.external id)
  | none => internAnonymous (.terminal t) false owner

mutual

def lowerWith (n : Naming) (owner : String) (sugar : Rule → StateM Lowering Expr) :
    Rule → StateM Lowering Expr
  | .terminal t => do return .symbol (← terminal n owner t)
  | .token content immediate => do
    let closed ← tokenContent n owner [] content
    return .symbol (← internAnonymous closed immediate owner)
  | .symbol name => do
    match ← resolve n name with
    | some symbol => return .symbol symbol
    | none => return .blank
  | .seq members => do return .makeSeq (← lowerAllWith n owner sugar members)
  | .choice members => do return .makeChoice (← lowerAllWith n owner sugar members)
  | .repeated content .zeroOrMore => do return .repeated (← lowerWith n owner sugar content)
  | .repeated content .oneOrMore => sugar (.repeated content .oneOrMore)
  | .optional content => sugar (.optional content)
  | .prec value assoc content => do
    return .prec value assoc (← lowerWith n owner sugar content)
  | .aliased content value named => do
    return .aliased (← lowerWith n owner sugar content) value named
  | .field name content => do return .field name (← lowerWith n owner sugar content)

def lowerAllWith (n : Naming) (owner : String) (sugar : Rule → StateM Lowering Expr) :
    List Rule → StateM Lowering (List Expr)
  | [] => pure []
  | rule :: rules => do
    let first ← lowerWith n owner sugar rule
    let rest ← lowerAllWith n owner sugar rules
    return first :: rest

end

/-- Lowers a rule. Optional parts and repetitions of one or more are lowered by their canonical
form, which has none of them left. -/
def lower (n : Naming) (owner : String) (rule : Rule) : StateM Lowering Expr :=
  lowerWith n owner (fun r => lowerWith n owner (fun _ => pure .blank) r.canonicalize) rule

end Lowering

end Productions
