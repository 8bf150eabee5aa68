import Productions.Diagnostic.Basic
import Productions.Graph.Basic
import Productions.Rule.Nullable
import Productions.Symbols.Basic

/-! Classification of rules. A rule is lexical if it is shaped like a token, or if it has no field,
does not refer back to itself and refers to lexical rules and external tokens only. A component of
rules that refer to each other is searched for a cycle in which every rule derives the next one
alone. The classified table comes with every report on the names of the grammar. -/
namespace Productions.Symbols

def referenceGraph (t : SymbolTable) : Graph String :=
  t.rules.mapValues fun _ info => OrderedSet.ofList (info.refs.toList.filter t.contains)

def isTokenRule (t : SymbolTable) (name : String) : Bool :=
  (t.get? name).any fun info => info.body.isTokenShaped

/-- Whether a rule outside every cycle is lexical, given the lexical rules it may refer to. -/
def isLexicalRule (t : SymbolTable) (lexical : OrderedSet String) (name : String) : Bool :=
  (t.get? name).any fun info =>
    info.body.isTokenShaped || !info.body.hasField
      && info.refs.toList.all fun ref => lexical.contains ref || t.externals.contains ref

/-- Adds the lexical rules of a component, once those it reaches are known. -/
def addLexical (t : SymbolTable) (graph : Graph String) (lexical : OrderedSet String)
    (component : List String) : OrderedSet String :=
  if graph.isRecursive component then lexical.insertAll (component.filter (isTokenRule t))
  else lexical.insertAll (component.filter (isLexicalRule t lexical))

def lexicalRules (t : SymbolTable) (graph : Graph String) : OrderedSet String :=
  graph.components.foldl (addLexical t graph) ∅

/-- Which rules of a component derive which other ones alone. Rules with fields are left out. -/
def unitGraph (t : SymbolTable) (nullable : OrderedSet String) (component : List String) :
    Graph String :=
  component.foldl (fun m name =>
    match t.get? name with
    | none => m
    | some info =>
      if info.body.hasField then m
      else m.insert name (OrderedSet.ofList
        ((info.body.units nullable.contains).toList.filter component.contains))) ∅

/-- A cycle through a hidden or token-shaped rule is lexical. -/
def cycleKind (t : SymbolTable) (cycle : List String) : Diagnostic.Kind :=
  if cycle.any fun name => t.isInlined name || isTokenRule t name then .cyclicLexicalRule
  else .unitCycle

def unitCycleReport (t : SymbolTable) (nullable : OrderedSet String) (component : List String) :
    Option Diagnostic :=
  ((unitGraph t nullable component).findCycle component).map fun cycle =>
    .about (cycleKind t cycle) (Graph.showCycle cycle) cycle []

def unitCycleReports (t : SymbolTable) (graph : Graph String) (nullable : OrderedSet String) :
    List Diagnostic :=
  (graph.components.filter graph.isRecursive).filterMap (unitCycleReport t nullable)

/-- A token is recognised by its shape first, then declared supertypes, lexical rules and choices
of symbols. -/
def kindOf (supertypes : List String) (lexical : OrderedSet String) (info : SymbolInfo) :
    SymbolKind :=
  if info.kind = .hidden then .hidden
  else if info.body.isTokenShaped then .token
  else if supertypes.contains info.name then .supertype
  else if lexical.contains info.name then .lexical
  else if info.body.isSymbolChoice then .supertype
  else .nonterminal

def classify (supertypes : List String) (lexical nullable : OrderedSet String) (t : SymbolTable) :
    SymbolTable :=
  { t with rules := t.rules.mapValues fun name info =>
      { info with
        kind := kindOf supertypes lexical info
        nullable := nullable.contains name } }

def supertypeReports (g : Grammar) (t : SymbolTable) : List Diagnostic :=
  g.supertypes.filterMap fun name =>
    match t.get? name with
    | some info =>
      if info.body.isSymbolChoice then none else some (.named .invalidSupertype name [])
    | none => none

def wordReports (g : Grammar) (t : SymbolTable) : List Diagnostic :=
  g.word.toList.filterMap fun word =>
    match t.get? word with
    | some info =>
      if info.kind = .token then none
      else some (.named .invalidWordRule word
        ["`" ++ word ++ "` is classified as " ++ info.kind.word])
    | none => none

def resolve (g : Grammar) : SymbolTable × List Diagnostic :=
  let start := declared g
  let graph := referenceGraph start
  let nullable := Rule.nullableNames start.bodies
  let table := classify g.supertypes (lexicalRules start graph) nullable start
  (table,
    duplicateReports g start
      ++ referenceReports g start
      ++ unitCycleReports start graph nullable
      ++ supertypeReports g table
      ++ wordReports g table)

end Productions.Symbols
