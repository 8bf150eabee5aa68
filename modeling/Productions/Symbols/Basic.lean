import Productions.Diagnostic.Basic
import Productions.Grammar.Basic
import Productions.Ordered.Map

/-! The table of the names a grammar declares, each with its place among the definitions, its kind
and its body, and the reports on names that are declared twice or used without being declared. The
first definition of a name counts. -/
namespace Productions

/-- How a rule takes part in the compiled grammar: as an ordinary variable, as a token of its own,
as a rule made of lexical material, by its body wherever it is used, or as a choice standing for
any of its members. -/
inductive SymbolKind where
  | nonterminal
  | token
  | lexical
  | hidden
  | supertype
  deriving DecidableEq, Repr, Inhabited

def SymbolKind.word : SymbolKind → String
  | nonterminal => "nonterminal"
  | token => "token"
  | lexical => "lexical"
  | hidden => "hidden"
  | supertype => "supertype"

structure SymbolInfo where
  name : String
  index : Nat
  kind : SymbolKind
  body : Rule
  refs : OrderedSet String
  nullable : Bool

structure SymbolTable where
  rules : OrderedMap String SymbolInfo
  externals : OrderedSet String

namespace SymbolTable

variable (t : SymbolTable)

def get? (name : String) : Option SymbolInfo := t.rules.get? name
def contains (name : String) : Bool := t.rules.contains name
def infos : List SymbolInfo := t.rules.values
def size : Nat := t.rules.size
def kind? (name : String) : Option SymbolKind := (t.get? name).map SymbolInfo.kind

def isInlined (name : String) : Bool := t.kind? name == some .hidden

/-- Whether a name is that of an external token and of no rule. -/
def isExternal (name : String) : Bool := !t.contains name && t.externals.contains name

def bodies : OrderedMap String Rule := t.rules.mapValues fun _ info => info.body

end SymbolTable

namespace Symbols

def declare (g : Grammar) (index : Nat) (d : Definition) : SymbolInfo where
  name := d.name
  index := index
  kind := if d.hidden || g.inlined.contains d.name then .hidden else .nonterminal
  body := d.body
  refs := d.body.symbols
  nullable := false

def declaredRules (g : Grammar) : OrderedMap String SymbolInfo :=
  g.rules.zipIdx.foldl (fun m d => m.insertIfNew d.1.name (declare g d.2 d.1)) ∅

def externalName? : Rule → Option String
  | .symbol name => some name
  | _ => none

def declared (g : Grammar) : SymbolTable :=
  ⟨declaredRules g, OrderedSet.ofList (g.externals.filterMap externalName?)⟩

/-- One report for each definition after the first one of its name. -/
def duplicateReports (g : Grammar) (t : SymbolTable) : List Diagnostic :=
  g.rules.zipIdx.filterMap fun d =>
    match t.get? d.1.name with
    | some first =>
      if first.index = d.2 then none
      else some (.named .duplicateRuleName d.1.name
        ["first defined as rule #" ++ toString (first.index + 1) ++ ", again as rule #"
          ++ toString (d.2 + 1)])
    | none => none

def unresolved (name place : String) (owner : Option String) : Diagnostic :=
  .about .unresolvedSymbol name owner.toList ["referenced from " ++ place]

def unresolvedIn (known : String → Bool) (place : String) (owner : Option String)
    (names : List String) : List Diagnostic :=
  (names.filter fun name => !known name).map fun name => unresolved name place owner

def orderedSymbol? : OrderingEntry → Option String
  | .symbol name => some name
  | .name _ => none

/-- Rules and extras may refer to rules and external tokens, all other declarations to rules. -/
def referenceReports (g : Grammar) (t : SymbolTable) : List Diagnostic :=
  let defined := fun name => t.contains name || t.externals.contains name
  t.infos.flatMap (fun info =>
      unresolvedIn defined ("`" ++ info.name ++ "`") (some info.name) info.refs.toList)
    ++ g.extras.flatMap (fun extra => unresolvedIn defined "extras" none extra.symbols.toList)
    ++ unresolvedIn t.contains "conflicts" none g.conflicts.flatten
    ++ unresolvedIn t.contains "inline" none g.inlined
    ++ unresolvedIn t.contains "supertypes" none g.supertypes
    ++ unresolvedIn t.contains "precedences" none
      (g.precedences.flatten.filterMap orderedSymbol?)
    ++ unresolvedIn t.contains "word" none g.word.toList

end Symbols

end Productions
