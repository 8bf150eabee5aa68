import Productions.Compiled.Basic
import Productions.Diagnostic.Render
import Productions.Text.Literal

/-! The compiled grammar as text for a reader, section by section; sections without entries are left
out. -/
namespace Productions

def Assoc.marker : Assoc → String
  | .none => "prec"
  | .left => "prec.left"
  | .right => "prec.right"
  | .dynamic => "prec.dynamic"

def Assoc.word : Assoc → String
  | .none => "none"
  | .left => "left"
  | .right => "right"
  | .dynamic => "dynamic"

def Precedence.show : Precedence → String
  | .integer level => toString level
  | .name n => Text.quoted n

namespace Listing

def aliasValue (value : String) (named : Bool) : String :=
  if named then value else Text.quoted value

def call (name : String) (arguments : List String) : String :=
  name ++ "(" ++ ", ".intercalate arguments ++ ")"

variable (p : Palette)

def terminal : Terminal → String
  | .literal text => p.inGreen (Text.quoted text)
  | .pattern value flags => p.inGreen ("/" ++ value ++ "/" ++ flags.getD "")

mutual

def rule : Rule → String
  | .terminal t => terminal p t
  | .symbol name => p.inBlue name
  | .seq [] => "blank"
  | .seq members => call "seq" (rules members)
  | .choice members => call "choice" (rules members)
  | .repeated content .zeroOrMore => call "repeat" [rule content]
  | .repeated content .oneOrMore => call "repeat1" [rule content]
  | .optional content => call "optional" [rule content]
  | .token content false => call "token" [rule content]
  | .token content true => call "token.immediate" [rule content]
  | .prec value assoc content => call assoc.marker [value.show, rule content]
  | .aliased content value named => call "alias" [rule content, aliasValue value named]
  | .field name content => call "field" [name, rule content]

def rules : List Rule → List String
  | [] => []
  | r :: rs => rule r :: rules rs

end

variable (c : CompiledGrammar)

/-- An anonymous terminal is shown by its content, any other symbol by its name. -/
def symbol : Symbol → String
  | .rule id => p.inBlue (c.symbolName (.rule id))
  | .lexical id =>
    match c.lexicon[id]? with
    | some ⟨_, false, .terminal t, false⟩ => terminal p t
    | some ⟨name, false, _, _⟩ => p.inDim name
    | _ => p.inBlue (c.symbolName (.lexical id))
  | .external id =>
    match c.externals[id]? with
    | some ⟨name, false⟩ => p.inGreen (Text.quoted name)
    | _ => p.inBlue (c.symbolName (.external id))

mutual

def expr : Expr → String
  | .symbol s => symbol p c s
  | .seq [] => "blank"
  | .seq members => call "seq" (exprs members)
  | .choice members => call "choice" (exprs members)
  | .repeated content => call "repeat" [expr content]
  | .prec value assoc content => call assoc.marker [value.show, expr content]
  | .aliased content value named => call "alias" [expr content, aliasValue value named]
  | .field name content => call "field" [name, expr content]

def exprs : List Expr → List String
  | [] => []
  | e :: es => expr e :: exprs es

end

def part (heading : String) (lines : List String) : List String :=
  if lines.isEmpty then [] else ["", p.inDim ("[" ++ heading ++ "]")] ++ lines

def fieldLine (name : String) (field : FieldInfo) : String :=
  "    " ++ p.inDim "field" ++ " " ++ name ++ ": "
    ++ " | ".intercalate (field.types.map NodeType.name)
    ++ (if field.multiple then " " ++ p.inDim "multiple" else "")
    ++ (if field.required then " " ++ p.inDim "required" else "")

def variableLines (v : Variable) : List String :=
  (p.inBlue v.name ++ " " ++ p.inDim ("(" ++ v.kind.word ++ ")") ++ " = " ++ expr p c v.body)
    :: v.fields.entries.map fun field => fieldLine p field.1 field.2

def place (index : Nat) : String :=
  let digits := toString index
  String.ofList (List.replicate (3 - digits.length) ' ') ++ digits

def entryLine (entry : LexicalEntry) (index : Nat) : String :=
  p.inDim (place index) ++ " " ++ (if entry.named then p.inBlue entry.name ++ " = " else "")
    ++ (if entry.immediate then "immediate " else "") ++ rule p entry.content

def alternativeLine (a : Alternative) (index : Nat) : String :=
  "  #" ++ toString (index + 1)
    ++ (match a.precedence.level with
      | some level => " level " ++ toString level ++ " " ++ a.precedence.assoc.word
      | none => " unannotated")
    ++ (match a.precedence.dynamic with
      | some level => " dynamic " ++ toString level
      | none => "")
    ++ (if a.leftOpen then " " ++ p.inDim "left-open" else "")
    ++ (if a.rightOpen then " " ++ p.inDim "right-open" else "")

def tieBreakLine (t : TieBreak) : String :=
  "  #" ++ toString (t.reduce + 1) ++ " then #" ++ toString (t.shift + 1) ++ ": "
    ++ t.resolution.word

def tableLines (d : Disambiguation) : List String :=
  p.inBlue d.rule :: d.alternatives.zipIdx.map (fun a => alternativeLine p a.1 a.2)
    ++ d.tieBreaks.map tieBreakLine

def symbolLine (symbols : List Symbol) : List String :=
  if symbols.isEmpty then [] else [", ".intercalate (symbols.map (symbol p c))]

def lines : List String :=
  [p.inDim "grammar" ++ " " ++ c.name, "", p.inDim "[variables]"]
    ++ c.vars.flatMap (variableLines p c)
    ++ part p "lexical" (c.lexicon.zipIdx.map fun e => entryLine p e.1 e.2)
    ++ part p "externals" (symbolLine p c ((List.range c.externals.length).map .external))
    ++ part p "extras" (symbolLine p c c.extras)
    ++ part p "word" (symbolLine p c c.word.toList)
    ++ part p "conflicts" (c.conflicts.map fun set => "[" ++ ", ".intercalate set ++ "]")
    ++ part p "supertypes" (c.supertypes.entries.map fun s =>
      p.inBlue s.1 ++ " = " ++ " | ".intercalate s.2)
    ++ part p "precedence" (c.precedence.flatMap (tableLines p))

end Listing

namespace CompiledGrammar

def listing (c : CompiledGrammar) (p : Palette) : String :=
  String.join ((Listing.lines p c).map fun line => line ++ "\n")

end CompiledGrammar

end Productions
