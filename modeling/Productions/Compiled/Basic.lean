import Productions.Normal.Basic
import Productions.Precedence.Orderings
import Productions.Precedence.Table
import Productions.Validation.Conflicts

/-! Compiled grammars: numbered variables with their fields, the lexical table, external tokens, and
the tables that settle ambiguities. For a field it is counted, up to two, how often it occurs in the
derivations of an expression. Warnings are no part of the written forms. -/
namespace Productions

/-- The least and the greatest number of occurrences of a field, each at most two. -/
structure FieldCount where
  min : Nat
  max : Nat
  types : OrderedSet NodeType

abbrev FieldCounts := OrderedMap String FieldCount

namespace FieldCount

def zero : FieldCount := ⟨0, 0, ∅⟩

def add (a b : FieldCount) : FieldCount :=
  ⟨Nat.min 2 (a.min + b.min), Nat.min 2 (a.max + b.max), a.types.union b.types⟩

def star (a : FieldCount) : FieldCount := ⟨0, if 0 < a.max then 2 else a.max, a.types⟩

def info (a : FieldCount) : FieldInfo := ⟨decide (1 < a.max), decide (0 < a.min), a.types.toList⟩

end FieldCount

namespace FieldCounts

def sum (a b : FieldCounts) : FieldCounts :=
  b.entries.foldl (fun m e => m.insert e.1 ((m.getD e.1 .zero).add e.2)) a

/-- The least count of a field over alternatives; one without the field counts none. -/
def least (name : String) (alternatives : List FieldCounts) : Nat :=
  match alternatives.map fun m => (m.getD name .zero).min with
  | [] => 0
  | n :: ns => ns.foldl Nat.min n

def join (alternatives : List FieldCounts) (total a : FieldCounts) : FieldCounts :=
  a.entries.foldl (fun m e =>
    let known := m.getD e.1 .zero
    m.insert e.1 ⟨least e.1 alternatives, Nat.max known.max e.2.max,
      known.types.union e.2.types⟩) total

def choice (alternatives : List FieldCounts) : FieldCounts :=
  alternatives.foldl (join alternatives) ∅

end FieldCounts

namespace NormalForm

variable (g : NormalForm)

def nodeOf (s : Symbol) : NodeType := ⟨g.symbolName s, g.symbolNamed s⟩

mutual

/-- The nodes an expression can surface as, each as often as it occurs. -/
def nodes : Expr → List NodeType
  | .symbol s => [g.nodeOf s]
  | .aliased _ value named => [⟨value, named⟩]
  | .seq members | .choice members => nodesAll members
  | .repeated content | .prec _ _ content | .field _ content => nodes content

def nodesAll : List Expr → List NodeType
  | [] => []
  | e :: es => nodes e ++ nodesAll es

end

mutual

def fieldCounts : Expr → FieldCounts
  | .symbol _ => ∅
  | .seq members => sequenceCounts members
  | .choice members => FieldCounts.choice (countsOfEach members)
  | .repeated content => (fieldCounts content).mapValues fun _ count => count.star
  | .prec _ _ content | .aliased content _ _ => fieldCounts content
  | .field name content =>
    let inner := fieldCounts content
    inner.insert name ((inner.getD name .zero).add ⟨1, 1, OrderedSet.ofList (g.nodes content)⟩)

def sequenceCounts (members : List Expr) : FieldCounts :=
  (countsOfEach members).foldl FieldCounts.sum ∅

def countsOfEach : List Expr → List FieldCounts
  | [] => []
  | e :: es => fieldCounts e :: countsOfEach es

end

def fieldsOf (e : Expr) : OrderedMap String FieldInfo :=
  (g.fieldCounts e).mapValues fun _ count => count.info

end NormalForm

structure AliasInfo where
  named : Bool
  sources : List String
  deriving DecidableEq, Repr

namespace Expr

mutual

def aliases : Expr → List (Expr × String × Bool)
  | symbol _ => []
  | seq members | choice members => aliasesAll members
  | aliased content value named => (content, value, named) :: aliases content
  | repeated content | prec _ _ content | field _ content => aliases content

def aliasesAll : List Expr → List (Expr × String × Bool)
  | [] => []
  | e :: es => aliases e ++ aliasesAll es

end

end Expr

namespace NormalForm

variable (g : NormalForm)

/-- Adds one alias; the first one of a name tells whether it is named. -/
def addAlias (m : OrderedMap String AliasInfo) (a : Expr × String × Bool) :
    OrderedMap String AliasInfo :=
  let known := m.getD a.2.1 ⟨a.2.2, []⟩
  let sources := (OrderedSet.ofList known.sources).insertAll ((g.nodes a.1).map NodeType.name)
  m.insert a.2.1 { known with sources := sources.toList }

def aliases : OrderedMap String AliasInfo :=
  (g.bodies.flatMap Expr.aliases).foldl g.addAlias ∅

end NormalForm

structure CompiledGrammar where
  name : String
  start : String
  vars : List Variable
  lexicon : List LexicalEntry
  externals : List ExternalToken
  extras : List Symbol
  word : Option Symbol
  conflicts : List (List String)
  supertypes : OrderedMap String (List String)
  levels : Levels
  precedence : List Disambiguation
  aliases : OrderedMap String AliasInfo
  warnings : List Diagnostic
  deriving DecidableEq

namespace CompiledGrammar

def ofNormalForm (g : NormalForm) (levels : Levels) (tables : List Disambiguation)
    (conflicts : Conflicts) (warnings : List Diagnostic) : CompiledGrammar where
  name := g.name
  start := (g.vars.head?.map Variable.name).getD ""
  vars := g.vars.map fun v => { v with fields := g.fieldsOf v.body }
  lexicon := g.lexicon
  externals := g.externals
  extras := g.extras
  word := g.word
  conflicts := conflicts.sets
  supertypes := g.supertypes
  levels := levels
  precedence := tables
  aliases := g.aliases
  warnings := warnings

variable (c : CompiledGrammar)

def startVariable? : Option Variable := c.vars.head?

def findVariable? (name : String) : Option Variable := c.vars.find? fun v => v.name == name

def namedEntry? (name : String) : Option LexicalEntry :=
  c.lexicon.find? fun entry => entry.named && entry.name == name

def table? (rule : String) : Option Disambiguation := c.precedence.find? fun d => d.rule == rule

def symbolName : Symbol → String
  | .rule id => (c.vars[id]?.map Variable.name).getD "?"
  | .lexical id => (c.lexicon[id]?.map LexicalEntry.name).getD "?"
  | .external id => (c.externals[id]?.map ExternalToken.name).getD "?"

end CompiledGrammar

end Productions
