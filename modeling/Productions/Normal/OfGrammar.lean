import Productions.Normal.Basic
import Productions.Normal.Inlining
import Productions.Normal.Lowering

/-! Hidden rules are inlined in every body and extra. The start rule comes first among the
variables, then every rule that is kept, in the order of definition. Variables are lowered before
extras, the word rule, token rules nothing refers to, and the bodies of hidden rules. -/
namespace Productions.NormalForm

def isKept : SymbolKind → Bool
  | .nonterminal | .lexical | .supertype => true
  | .token | .hidden => false

/-- The rules that become variables, the start rule first. -/
def keptRules (t : SymbolTable) (start : String) : List SymbolInfo :=
  (t.get? start).toList ++ t.infos.filter fun info => isKept info.kind && info.name != start

def inlineRules (t : SymbolTable) : List SymbolInfo → StateM Inlining (List (String × Inlined))
  | [] => pure []
  | info :: infos => do
    let inlined ← Inlining.body t info.name
    let rest ← inlineRules t infos
    return (info.name, inlined) :: rest

def inlineExtras (t : SymbolTable) : List Rule → StateM Inlining (List Rule)
  | [] => pure []
  | extra :: extras => do
    let inlined ← Inlining.inline t extra
    let rest ← inlineExtras t extras
    return inlined.rule :: rest

/-- A token rule is a variable only as the start rule; its body is then its own entry. -/
def lowerBody (n : Naming) (info : SymbolInfo) : StateM Lowering Expr :=
  if info.kind = .token then do return .symbol (.lexical (← Lowering.namedToken n info.name))
  else Lowering.lower n info.name (n.bodies.getD info.name .blank)

def lowerVariables (n : Naming) (inlined : OrderedMap String Inlined) :
    List SymbolInfo → StateM Lowering (List Variable)
  | [] => pure []
  | info :: infos => do
    let body ← lowerBody n info
    let rest ← lowerVariables n inlined infos
    let used := (inlined.getD info.name .blank).used.toList
    return ⟨info.name, info.kind, body, used, ∅⟩ :: rest

/-- An extra has to be a single symbol; any other one is reported by its place. -/
def lowerExtras (n : Naming) : (place : Nat) → List Rule → StateM Lowering (List Symbol)
  | _, [] => pure []
  | place, extra :: extras => do
    match ← Lowering.lower n "extras" extra with
    | .symbol symbol =>
      let rest ← lowerExtras n (place + 1) extras
      return symbol :: rest
    | _ =>
      modify fun s => { s with
        reports := s.reports ++ [.about .invalidExtra ("#" ++ toString place) [] []] }
      lowerExtras n (place + 1) extras

def lowerTokens (n : Naming) : List SymbolInfo → StateM Lowering Unit
  | [] => pure ()
  | info :: infos => do
    if info.kind = .token then discard (Lowering.namedToken n info.name)
    lowerTokens n infos

def lowerHidden (n : Naming) (start : String) :
    List SymbolInfo → StateM Lowering (List (String × Expr))
  | [] => pure []
  | info :: infos => do
    if info.kind = .hidden && info.name != start then
      let body ← Lowering.lower n info.name (n.bodies.getD info.name .blank)
      let rest ← lowerHidden n start infos
      return (info.name, body) :: rest
    else lowerHidden n start infos

/-- Declared supertypes and rules classified as supertypes, each with the names it refers to. -/
def supertypesOf (g : Grammar) (t : SymbolTable) : OrderedMap String (List String) :=
  let structural := (t.infos.filter fun info => info.kind == .supertype).map SymbolInfo.name
  (g.supertypes ++ structural).foldl (fun m name =>
    match t.get? name with
    | some info => m.insertIfNew name info.body.canonicalize.symbols.toList
    | none => m) ∅

structure Lowered where
  vars : List Variable
  extras : List Symbol
  word : Option Symbol
  expansions : List (String × Expr)

def lowerParts (g : Grammar) (n : Naming) (inlined : OrderedMap String Inlined)
    (extras : List Rule) (kept : List SymbolInfo) (start : String) : StateM Lowering Lowered := do
  let vars ← lowerVariables n inlined kept
  let extras ← lowerExtras n 1 extras
  let word ← match g.word with
    | some word => Lowering.resolve n word
    | none => pure none
  lowerTokens n n.table.infos
  let expansions ← lowerHidden n start n.table.infos
  return ⟨vars, extras, word, expansions⟩

def ofGrammar (g : Grammar) (t : SymbolTable) (start : String) : NormalForm × List Diagnostic :=
  let (rules, s) := (inlineRules t t.infos).run Inlining.start
  let (extras, s) := (inlineExtras t g.extras).run s
  let inlined := OrderedMap.ofList rules
  let kept := keptRules t start
  let n : Naming := {
    table := t
    bodies := inlined.mapValues fun _ i => i.rule
    vars := OrderedMap.ofList (kept.zipIdx.map fun k => (k.1.name, k.2))
    externals := g.externals.filterMap ExternalToken.ofRule? }
  let (parts, lowering) := (lowerParts g n inlined extras kept start).run Lowering.start
  ({ name := g.name
     vars := parts.vars
     lexicon := lowering.lexicon.entries
     externals := n.externals
     extras := parts.extras
     word := parts.word
     expansions := OrderedMap.ofList parts.expansions
     conflicts := g.conflicts
     supertypes := supertypesOf g t
     precedences := g.precedences
     table := t }, s.reports ++ lowering.reports)

end Productions.NormalForm
