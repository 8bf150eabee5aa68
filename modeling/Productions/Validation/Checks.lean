import Productions.Precedence.Table
import Productions.Symbols.Resolution
import Productions.Validation.Conflicts

/-! Patterns have to be readable and tokens must not match the empty text; what is repeated has to
consume something; an ambiguity has to be declared; and every rule should be reachable. -/
namespace Productions.Validation

def patternReport? (owner : String) : Terminal → Option Diagnostic
  | .literal _ => none
  | .pattern value flags => (Pattern.problem? value flags).map fun problem =>
    .about .invalidPattern ("/" ++ value ++ "/") [owner] [problem]

/-- The faulty patterns of an entry; without any, whether the entry matches the empty text. -/
def tokenReports (entry : LexicalEntry) : List Diagnostic :=
  let faults := entry.content.terminals.filterMap (patternReport? entry.name)
  if faults.isEmpty && entry.content.nullable fun _ => false then
    [.named .emptyToken entry.name []]
  else faults

mutual

def hasEmptyRepeat (isNullable : Symbol → Bool) : Expr → Bool
  | .symbol _ => false
  | .seq members | .choice members => anyHasEmptyRepeat isNullable members
  | .repeated content => content.nullable isNullable || hasEmptyRepeat isNullable content
  | .prec _ _ content | .aliased content _ _ | .field _ content =>
    hasEmptyRepeat isNullable content

def anyHasEmptyRepeat (isNullable : Symbol → Bool) : List Expr → Bool
  | [] => false
  | e :: es => hasEmptyRepeat isNullable e || anyHasEmptyRepeat isNullable es

end

mutual

def hasEmptyTokenRepeat : Rule → Bool
  | .terminal _ | .symbol _ => false
  | .seq members | .choice members => anyHasEmptyTokenRepeat members
  | .repeated content _ => (content.nullable fun _ => false) || hasEmptyTokenRepeat content
  | .optional content | .token content _ | .prec _ _ content | .aliased content _ _
  | .field _ content => hasEmptyTokenRepeat content

def anyHasEmptyTokenRepeat : List Rule → Bool
  | [] => false
  | rule :: rules => hasEmptyTokenRepeat rule || anyHasEmptyTokenRepeat rules

end

/-- Reports on variables name the hidden rules the repetition comes from; hidden rules that were
expanded into some variable are not reported again. -/
def repeatReports (g : NormalForm) (f : FirstSets) : List Diagnostic :=
  let faulty := fun name =>
    (g.expansions.get? name).any fun body => hasEmptyRepeat f.symbolNullable body
  let inlined := OrderedSet.ofList (g.vars.flatMap Variable.inlined)
  (g.vars.filter fun v => hasEmptyRepeat f.symbolNullable v.body).map (fun v =>
      .named .infiniteRepeat v.name ((v.inlined.filter faulty).map fun hidden =>
        "the repeat comes from inlined rule `" ++ hidden ++ "`"))
    ++ (g.expansions.keys.filter fun name => !inlined.contains name && faulty name).map (fun name =>
      .named .infiniteRepeat name [])
    ++ (g.lexicon.filter fun entry => hasEmptyTokenRepeat entry.content).map fun entry =>
      .named .infiniteRepeat entry.name []

def ambiguityNote (t : TieBreak) : String :=
  "alternative #" ++ toString (t.reduce + 1) ++ " can be extended by alternative #"
    ++ toString (t.shift + 1) ++ " and neither has precedence"

/-- A table with unresolved pairs whose variable no conflict set covers. -/
def ambiguityReport? (g : NormalForm) (c : Conflicts) (d : Disambiguation) : Option Diagnostic :=
  if d.unresolved.isEmpty then none
  else match g.vars[d.id]? with
    | none => none
    | some v =>
      if c.covers v then none
      else some (.named .undeclaredAmbiguity d.rule (d.unresolved.map ambiguityNote))

/-- Where reaching begins: the start rule, the extras, and the word rule if it is a token. -/
def roots (g : NormalForm) (start : String) : List String :=
  let word := match g.word with
    | some (.lexical id) => (g.lexicon[id]?.map LexicalEntry.name).toList
    | _ => []
  start :: g.extras.map g.symbolName ++ word

def unreachableReports (g : NormalForm) (start : String) : List Diagnostic :=
  let reached := (Symbols.referenceGraph g.table).reach (roots g start)
  (g.table.infos.filter fun info => !reached.contains info.name).map fun info =>
    .named .unreachableRule info.name []

def reports (g : NormalForm) (tables : List Disambiguation) (conflicts : Conflicts)
    (start : String) : List Diagnostic :=
  let first := FirstSets.ofNormalForm g
  g.lexicon.flatMap tokenReports
    ++ repeatReports g first
    ++ tables.filterMap (ambiguityReport? g conflicts)
    ++ conflicts.reports first g
    ++ unreachableReports g start

end Productions.Validation
