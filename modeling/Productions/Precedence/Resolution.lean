import Productions.Expr.Basic
import Productions.Precedence.Orderings
import Productions.Precedence.Table

/-! Resolution of named precedences. Configured levels come first and those of the grammar's own
orderings fill the gaps. A name is replaced by its level, and an annotation without associativity
takes that of the level. An unknown name becomes level 0 and is reported. -/
namespace Productions

namespace Levels

def resolve (levels : Levels) (value : Precedence) (assoc : Assoc) : Precedence × Assoc :=
  match value with
  | .integer _ => (value, assoc)
  | .name name =>
    match levels.get? name with
    | some level => (.integer level.level, if assoc = .none then level.assoc else assoc)
    | none => (.integer 0, assoc)

/-- The names without a level, in order of first occurrence. -/
def unknown (levels : Levels) (names : List String) : List String :=
  (OrderedSet.ofList (names.filter fun name => !levels.contains name)).toList

end Levels

def Precedence.name? : Precedence → Option String
  | .integer _ => none
  | .name n => some n

namespace Rule

mutual

def levelNames : Rule → List String
  | terminal _ | symbol _ => []
  | seq members | choice members => levelNamesAll members
  | prec value _ content => value.name?.toList ++ levelNames content
  | repeated content _ | optional content | token content _ | aliased content _ _
  | field _ content => levelNames content

def levelNamesAll : List Rule → List String
  | [] => []
  | rule :: rules => levelNames rule ++ levelNamesAll rules

end

mutual

def resolveLevels (levels : Levels) : Rule → Rule
  | terminal t => terminal t
  | symbol name => symbol name
  | seq members => seq (resolveLevelsAll levels members)
  | choice members => choice (resolveLevelsAll levels members)
  | repeated content repetition => repeated (resolveLevels levels content) repetition
  | optional content => optional (resolveLevels levels content)
  | token content immediate => token (resolveLevels levels content) immediate
  | prec value assoc content =>
    prec (levels.resolve value assoc).1 (levels.resolve value assoc).2
      (resolveLevels levels content)
  | aliased content value named => aliased (resolveLevels levels content) value named
  | field name content => field name (resolveLevels levels content)

def resolveLevelsAll (levels : Levels) : List Rule → List Rule
  | [] => []
  | rule :: rules => resolveLevels levels rule :: resolveLevelsAll levels rules

end

end Rule

namespace Expr

mutual

def levelNames : Expr → List String
  | symbol _ => []
  | seq members | choice members => levelNamesAll members
  | prec value _ content => value.name?.toList ++ levelNames content
  | repeated content | aliased content _ _ | field _ content => levelNames content

def levelNamesAll : List Expr → List String
  | [] => []
  | e :: es => levelNames e ++ levelNamesAll es

end

mutual

def resolveLevels (levels : Levels) : Expr → Expr
  | symbol s => symbol s
  | seq members => seq (resolveLevelsAll levels members)
  | choice members => choice (resolveLevelsAll levels members)
  | repeated content => repeated (resolveLevels levels content)
  | prec value assoc content =>
    prec (levels.resolve value assoc).1 (levels.resolve value assoc).2
      (resolveLevels levels content)
  | aliased content value named => aliased (resolveLevels levels content) value named
  | field name content => field name (resolveLevels levels content)

def resolveLevelsAll (levels : Levels) : List Expr → List Expr
  | [] => []
  | e :: es => resolveLevels levels e :: resolveLevelsAll levels es

end

end Expr

/-- The levels in effect, and a report if the orderings contradict each other. -/
def Levels.inEffect (orderings : List (List OrderingEntry)) (configured : Option Levels) :
    Levels × List Diagnostic :=
  let given := configured.getD ∅
  match Orderings.levels (orderings.map fun entries => entries.map OrderingEntry.text) with
  | .ok derived => (given.mergeMissing derived, [])
  | .error names => (given, [.about .precedenceCycle (", ".intercalate names) [] []])

namespace NormalForm

def unknownReports (levels : Levels) (owner : String) (names : List String) : List Diagnostic :=
  (levels.unknown names).map fun name => .about .unknownPrecedence name [owner] []

/-- One report for each name without a level in a variable, an expansion or a lexical entry. -/
def unknownLevelReports (g : NormalForm) (levels : Levels) : List Diagnostic :=
  g.vars.flatMap (fun v => unknownReports levels v.name v.body.levelNames)
    ++ g.expansions.entries.flatMap (fun e => unknownReports levels e.1 e.2.levelNames)
    ++ g.lexicon.flatMap (fun entry => unknownReports levels entry.name entry.content.levelNames)

def resolveLevels (g : NormalForm) (levels : Levels) : NormalForm :=
  { g with
    vars := g.vars.map fun v => { v with body := v.body.resolveLevels levels }
    expansions := g.expansions.mapValues fun _ body => body.resolveLevels levels
    lexicon := g.lexicon.map fun entry =>
      { entry with content := entry.content.resolveLevels levels } }

end NormalForm

end Productions
