import Productions.Compiled.Basic

/-! Variables become rules over names again, and named lexical entries become token rules after
them. Members of conflict sets that were expanded away are replaced by the variables they were
expanded into. Supertypes are declared where the body is still a choice of symbols. -/
namespace Productions

/-- The rule of a token with the given entry: a single terminal stands for itself. -/
def LexicalEntry.toRule (entry : LexicalEntry) : Rule :=
  match entry.content with
  | .terminal t => if entry.immediate then .token (.terminal t) true else .terminal t
  | content => .token content entry.immediate

namespace Expr

def isSymbolChoice : Expr → Bool
  | choice members => members.all fun
    | symbol _ => true
    | aliased (symbol _) _ _ => true
    | _ => false
  | _ => false

end Expr

namespace CompiledGrammar

variable (c : CompiledGrammar)

def symbolRule : Symbol → Rule
  | .rule id => .symbol (c.symbolName (.rule id))
  | .lexical id =>
    match c.lexicon[id]? with
    | some entry => if entry.named then .symbol entry.name else entry.toRule
    | none => .blank
  | .external id =>
    match c.externals[id]? with
    | some token => if token.named then .symbol token.name else .terminal (.literal token.name)
    | none => .blank

mutual

def exprRule : Expr → Rule
  | .symbol s => c.symbolRule s
  | .seq members => .seq (exprRules members)
  | .choice members => .choice (exprRules members)
  | .repeated content => .repeated (exprRule content) .zeroOrMore
  | .prec value assoc content => .prec value assoc (exprRule content)
  | .aliased content value named => .aliased (exprRule content) value named
  | .field name content => .field name (exprRule content)

def exprRules : List Expr → List Rule
  | [] => []
  | e :: es => exprRule e :: exprRules es

end

/-- The entry that a token rule wraps; only the start rule can be such a variable. -/
def wrappedEntry? (v : Variable) : Option Nat :=
  match v.kind, v.body with
  | .token, .symbol (.lexical id) => some id
  | _, _ => none

def variableRule (v : Variable) : Definition where
  name := v.name
  body := match wrappedEntry? v with
    | some id => (c.lexicon[id]?.map LexicalEntry.toRule).getD .blank
    | none => c.exprRule v.body
  hidden := v.isHidden

def tokenRules : List Definition :=
  let wrapped := c.vars.filterMap wrappedEntry?
  (c.lexicon.zipIdx.filter fun e => e.1.named && !wrapped.contains e.2).map fun e =>
    ⟨e.1.name, e.1.toRule, false⟩

/-- The variables that stand for a member of a conflict set. -/
def conflictMembers (name : String) : List String :=
  if (c.findVariable? name).isSome then [name]
  else (c.vars.filter fun v => v.inlined.contains name).map Variable.name

def toGrammar : Grammar where
  name := c.name
  rules := c.vars.map c.variableRule ++ c.tokenRules
  extras := c.extras.map c.symbolRule
  precedences := []
  conflicts := c.conflicts.map fun set => (OrderedSet.ofList (set.flatMap c.conflictMembers)).toList
  externals := c.externals.map fun token =>
    if token.named then .symbol token.name else .terminal (.literal token.name)
  inlined := []
  supertypes := c.supertypes.keys.filter fun name =>
    (c.findVariable? name).any fun v => v.body.isSymbolChoice
  word := c.word.map c.symbolName

end CompiledGrammar

end Productions
