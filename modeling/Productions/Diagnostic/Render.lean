import Productions.Diagnostic.Basic

/-! Diagnostics as they are shown, with colours or without: the heading, the file and the rules it
is about, notes and hints. A blank line separates two diagnostics. -/
namespace Productions

/-- What is written before text of each kind, and what ends it. -/
structure Palette where
  blue : String
  green : String
  dim : String
  red : String
  yellow : String
  reset : String

namespace Palette

def coloured : Palette where
  blue := "\x1b[34m"
  green := "\x1b[32m"
  dim := "\x1b[2m"
  red := "\x1b[1;31m"
  yellow := "\x1b[1;33m"
  reset := "\x1b[0m"

def plain : Palette := ⟨"", "", "", "", "", ""⟩

def ofBool (colour : Bool) : Palette := if colour then coloured else plain

variable (p : Palette)

def inBlue (text : String) : String := p.blue ++ text ++ p.reset
def inGreen (text : String) : String := p.green ++ text ++ p.reset
def inDim (text : String) : String := p.dim ++ text ++ p.reset

end Palette

namespace Diagnostic

def renderPlace (p : Palette) (path : Option String) (rules : List String) : String :=
  if rules.isEmpty && path.isNone then ""
  else
    let shownPath := match path with
      | none => ""
      | some path => if rules.isEmpty then path else path ++ ": "
    "\n  " ++ p.inDim "-->" ++ " " ++ shownPath ++ ", ".intercalate (rules.map p.inBlue)

def renderOne (p : Palette) (path : Option String) (d : Diagnostic) : String :=
  let label := match d.severity with
    | .error => p.red
    | .warning => p.yellow
  label ++ d.heading ++ p.reset ++ ": " ++ d.message ++ renderPlace p path d.rules
    ++ String.join (d.notes.map fun note => "\n  " ++ p.inDim "= note:" ++ " " ++ note)
    ++ String.join (d.hints.map fun hint => "\n  " ++ p.inDim "= help:" ++ " " ++ hint)

def render (p : Palette) (path : Option String) (ds : List Diagnostic) : String :=
  "\n\n".intercalate (ds.map (renderOne p path))

end Diagnostic

end Productions
