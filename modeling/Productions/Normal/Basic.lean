import Productions.Expr.Basic
import Productions.Normal.Lexicon
import Productions.Ordered.Map
import Productions.Symbols.Basic

/-! The normal form of a grammar: numbered variables over a lexical table, of which the start rule
is the first. Expansions are the bodies of hidden rules, kept for analyses that name them. -/
namespace Productions

structure NodeType where
  name : String
  named : Bool
  deriving DecidableEq, Repr

/-- Whether a field can hold several nodes, whether every derivation has it, and its nodes. -/
structure FieldInfo where
  multiple : Bool
  required : Bool
  types : List NodeType
  deriving DecidableEq, Repr

/-- A rule of the normal form, with the hidden rules expanded into its body. -/
structure Variable where
  name : String
  kind : SymbolKind
  body : Expr
  inlined : List String
  fields : OrderedMap String FieldInfo
  deriving DecidableEq

def Variable.isHidden (v : Variable) : Bool := v.kind == .hidden

/-- A token of an outside scanner, declared as a symbol if named and as literal text if not. -/
structure ExternalToken where
  name : String
  named : Bool
  deriving DecidableEq, Repr

def ExternalToken.ofRule? : Rule → Option ExternalToken
  | .symbol name => some ⟨name, true⟩
  | .terminal (.literal text) => some ⟨text, false⟩
  | _ => none

structure NormalForm where
  name : String
  vars : List Variable
  lexicon : List LexicalEntry
  externals : List ExternalToken
  extras : List Symbol
  word : Option Symbol
  expansions : OrderedMap String Expr
  conflicts : List (List String)
  supertypes : OrderedMap String (List String)
  precedences : List (List OrderingEntry)
  table : SymbolTable

namespace NormalForm

variable (g : NormalForm)

def bodies : List Expr := g.vars.map Variable.body

def variableId? (name : String) : Option Nat := g.vars.findIdx? fun v => v.name == name

def namedEntry? (name : String) : Option Nat :=
  g.lexicon.findIdx? fun entry => entry.named && entry.name == name

def namedExternal? (name : String) : Option Nat :=
  g.externals.findIdx? fun token => token.named && token.name == name

/-- The symbol of a rule, a token rule or an external token, in this order. -/
def lookup (name : String) : Option Symbol :=
  ((g.variableId? name).map .rule).or
    (((g.namedEntry? name).map .lexical).or ((g.namedExternal? name).map .external))

/-- The name of a symbol; a number without an entry is shown as a question mark. -/
def symbolName : Symbol → String
  | .rule id => (g.vars[id]?.map Variable.name).getD "?"
  | .lexical id => (g.lexicon[id]?.map LexicalEntry.name).getD "?"
  | .external id => (g.externals[id]?.map ExternalToken.name).getD "?"

def symbolNamed : Symbol → Bool
  | .rule id => g.vars[id]?.any fun v => !v.isHidden
  | .lexical id => g.lexicon[id]?.any LexicalEntry.named
  | .external id =>
    g.externals[id]?.any fun token => token.named && !Grammar.isHiddenName token.name

def bodyOf (name : String) : Option Expr :=
  match g.variableId? name with
  | some id => g.vars[id]?.map Variable.body
  | none => g.expansions.get? name

end NormalForm

end Productions
