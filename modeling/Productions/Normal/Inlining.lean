import Productions.Diagnostic.Basic
import Productions.Grammar.Basic
import Productions.Graph.Basic
import Productions.Symbols.Basic

/-! A reference to a hidden rule is replaced by the canonical body of the rule, in which hidden
rules have been replaced in the same way. Each hidden rule is expanded once and kept. Meeting a rule
that is being expanded closes a cycle; it is reported once for each set of rules and stands for the
blank rule there. -/
namespace Productions

/-- A rule without hidden references, and the hidden rules that were expanded into it. -/
structure Inlined where
  rule : Rule
  used : OrderedSet String
  deriving DecidableEq

def Inlined.blank : Inlined := ⟨Rule.blank, ∅⟩

/-- What inlining keeps: finished expansions, the cycles reported so far as sorted lists, the
reports, and the hidden rules expanded into the rule at hand. -/
structure Inlining where
  expanded : OrderedMap String Inlined
  cycles : OrderedSet (List String)
  reports : List Diagnostic
  used : OrderedSet String

namespace Inlining

def start : Inlining := ⟨∅, ∅, [], ∅⟩

def sortedNames (names : List String) : List String :=
  names.mergeSort fun a b => decide (a ≤ b)

def reportCycle (cycle : List String) (s : Inlining) : Inlining :=
  let key := sortedNames cycle
  if s.cycles.contains key then s
  else { s with
    cycles := s.cycles.insert key
    reports := s.reports ++ [.about .inliningCycle (Graph.showCycle cycle) cycle []] }

mutual

def substitute (hidden : String → Bool) (expand : String → StateM Inlining Inlined) :
    Rule → StateM Inlining Rule
  | .terminal t => pure (.terminal t)
  | .symbol name =>
    if hidden name then do
      let expansion ← expand name
      modify fun s => { s with used := (s.used.insert name).union expansion.used }
      return expansion.rule
    else pure (.symbol name)
  | .seq members => Rule.makeSeq <$> substituteAll hidden expand members
  | .choice members => Rule.makeChoice <$> substituteAll hidden expand members
  | .repeated content repetition => do
    return .repeated (← substitute hidden expand content) repetition
  | .optional content => do return .optional (← substitute hidden expand content)
  | .token content immediate => do return .token (← substitute hidden expand content) immediate
  | .prec value assoc content => do
    return .prec value assoc (← substitute hidden expand content)
  | .aliased content value named => do
    return .aliased (← substitute hidden expand content) value named
  | .field name content => do return .field name (← substitute hidden expand content)

def substituteAll (hidden : String → Bool) (expand : String → StateM Inlining Inlined) :
    List Rule → StateM Inlining (List Rule)
  | [] => pure []
  | rule :: rules => do
    let first ← substitute hidden expand rule
    let rest ← substituteAll hidden expand rules
    return first :: rest

end

def inlineWith (hidden : String → Bool) (expand : String → StateM Inlining Inlined) (rule : Rule) :
    StateM Inlining Inlined := do
  let outer ← get
  set { outer with used := ∅ }
  let inner ← substitute hidden expand rule
  let s ← get
  set { s with used := outer.used }
  return ⟨inner.canonicalize, s.used⟩

/-- The expansion of a name while the rules of `stack` are being expanded. The stack never holds a
name twice, so the number of rules bounds its length. -/
def expansion (t : SymbolTable) :
    (fuel : Nat) → (stack : List String) → String → StateM Inlining Inlined
  | 0, _, _ => pure .blank
  | fuel + 1, stack, name => do
    match (← get).expanded.get? name with
    | some known => return known
    | none =>
      if stack.contains name then
        modify (reportCycle (stack.dropWhile fun other => other != name))
        return .blank
      else
        match t.get? name with
        | none => return .blank
        | some info =>
          let inlined ← inlineWith t.isInlined (expansion t fuel (stack ++ [name]))
            info.body.canonicalize
          modify fun s => { s with expanded := s.expanded.insert name inlined }
          return inlined

def expand (t : SymbolTable) (name : String) : StateM Inlining Inlined :=
  expansion t (t.size + 1) [] name

def inline (t : SymbolTable) (rule : Rule) : StateM Inlining Inlined :=
  inlineWith t.isInlined (expand t) rule

def body (t : SymbolTable) (name : String) : StateM Inlining Inlined :=
  if t.isInlined name then expand t name
  else match t.get? name with
    | none => pure .blank
    | some info => inline t info.body.canonicalize

end Inlining

end Productions
