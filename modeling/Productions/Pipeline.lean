import Productions.Compiled.Basic
import Productions.Normal.OfGrammar
import Productions.Precedence.Resolution
import Productions.Symbols.Resolution
import Productions.Validation.Checks

/-! Names are resolved, rules are brought to normal form, precedences are settled, and the result is
checked. A stage that reports errors ends the compilation; warnings are carried forward. -/
namespace Productions

inductive Stage where
  | resolve
  | normalize
  | precedence
  | validate
  deriving DecidableEq, Repr

def Stage.title : Stage → String
  | resolve => "symbol resolution"
  | normalize => "normalization"
  | precedence => "precedence resolution"
  | validate => "validation"

/-- The stage that reported errors, and everything reported up to its end. -/
structure Failure where
  stage : Stage
  diagnostics : List Diagnostic
  deriving DecidableEq, Repr

def Failure.message (f : Failure) : String :=
  f.stage.title ++ " failed with " ++ toString (Diagnostic.errorCount f.diagnostics) ++ " errors"

/-- The start rule is the first rule unless given; given levels come before derived ones. -/
structure Settings where
  start : Option String
  levels : Option Levels

def Settings.default : Settings := ⟨none, none⟩

structure Resolved where
  grammar : Grammar
  settings : Settings
  table : SymbolTable
  start : String
  reports : List Diagnostic

structure Normalized where
  settings : Settings
  normal : NormalForm
  start : String
  reports : List Diagnostic

structure Disambiguated where
  normal : NormalForm
  levels : Levels
  tables : List Disambiguation
  start : String
  reports : List Diagnostic

/-- Ends a stage: errors among the reports make it fail. -/
def endStage {α : Type} (stage : Stage) (reports : List Diagnostic) (result : α) :
    Except Failure α :=
  if Diagnostic.hasErrors reports then .error ⟨stage, reports⟩ else .ok result

/-- The start rule has to be defined and must not be listed as inlined. -/
def startRule (g : Grammar) (settings : Settings) (t : SymbolTable) : Except Diagnostic String := do
  let start ← match settings.start with
    | some name =>
      if t.contains name then pure name
      else .error (.about .unreachableStartRule
        ("start rule `" ++ name ++ "` is not defined") [name] [])
    | none =>
      match t.infos.head? with
      | some info => pure info.name
      | none => .error (.about .unreachableStartRule "grammar defines no rules" [] [])
  if g.inlined.contains start then
    .error (.about .unreachableStartRule
      ("start rule `" ++ start ++ "` is listed in `inline`") [start] [])
  else return start

namespace Grammar

def resolve (g : Grammar) (settings : Settings) : Except Failure Resolved :=
  let (table, reports) := Symbols.resolve g
  match startRule g settings table with
  | .ok start => endStage .resolve reports ⟨g, settings, table, start, reports⟩
  | .error report => .error ⟨.resolve, reports ++ [report]⟩

end Grammar

namespace Resolved

def normalize (r : Resolved) : Except Failure Normalized :=
  let (normal, more) := NormalForm.ofGrammar r.grammar r.table r.start
  let reports := r.reports ++ more
  endStage .normalize reports ⟨r.settings, normal, r.start, reports⟩

end Resolved

namespace Normalized

def disambiguate (n : Normalized) : Except Failure Disambiguated :=
  let (levels, cycles) := Levels.inEffect n.normal.precedences n.settings.levels
  let reports := n.reports ++ cycles ++ n.normal.unknownLevelReports levels
  let normal := n.normal.resolveLevels levels
  endStage .precedence reports
    ⟨normal, levels, Disambiguation.tables normal, n.start, reports⟩

end Normalized

namespace Disambiguated

def validate (d : Disambiguated) : Except Failure CompiledGrammar :=
  let conflicts := Conflicts.ofDeclared d.normal.conflicts
  let reports := d.reports ++ Validation.reports d.normal d.tables conflicts d.start
  endStage .validate reports
    (CompiledGrammar.ofNormalForm d.normal d.levels d.tables conflicts reports)

end Disambiguated

namespace Grammar

def compile (g : Grammar) (settings : Settings) : Except Failure CompiledGrammar := do
  (← (← (← g.resolve settings).normalize).disambiguate).validate

end Grammar

end Productions
