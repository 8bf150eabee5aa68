import Productions.Compiled.Basic
import Productions.Expr.Basic
import Productions.Grammar.Basic
import Productions.Json.Value

/-! Compiled grammars as JSON. Rules, expressions and symbols are objects with one member, named for
their kind; records are objects with their members in a fixed order. Warnings are left out. -/
namespace Productions

open Json (Value)

def Assoc.json : Assoc → Value
  | .none => .string "None"
  | .left => .string "Left"
  | .right => .string "Right"
  | .dynamic => .string "Dynamic"

def Precedence.json : Precedence → Value
  | .integer level => .object [("Integer", .int level)]
  | .name n => .object [("Name", .string n)]

def Repetition.json : Repetition → Value
  | .zeroOrMore => .string "ZeroOrMore"
  | .oneOrMore => .string "OneOrMore"

def Terminal.json : Terminal → Value
  | .literal text => .object [("Literal", .string text)]
  | .pattern value flags => .object [("Pattern", .object
      [("value", .string value), ("flags", .ofOption .string flags)])]

namespace Rule

mutual

def json : Rule → Value
  | terminal t => .object [("Terminal", t.json)]
  | symbol name => .object [("Symbol", .string name)]
  | seq members => .object [("Seq", .array (jsonAll members))]
  | choice members => .object [("Choice", .array (jsonAll members))]
  | repeated content repetition => .object [("Repeat", .object
      [("content", json content), ("repetition", repetition.json)])]
  | optional content => .object [("Optional", json content)]
  | token content immediate => .object [("Token", .object
      [("content", json content), ("immediate", .bool immediate)])]
  | prec value assoc content => .object [("Prec", .object
      [("value", value.json), ("assoc", assoc.json), ("content", json content)])]
  | aliased content value named => .object [("Alias", .object
      [("content", json content), ("value", .string value), ("named", .bool named)])]
  | field name content => .object [("Field", .object
      [("name", .string name), ("content", json content)])]

def jsonAll : List Rule → List Value
  | [] => []
  | rule :: rules => json rule :: jsonAll rules

end

end Rule

def Symbol.json : Symbol → Value
  | .rule id => .object [("Rule", .int id)]
  | .lexical id => .object [("Lexical", .int id)]
  | .external id => .object [("External", .int id)]

namespace Expr

mutual

def json : Expr → Value
  | symbol s => .object [("Symbol", s.json)]
  | seq members => .object [("Seq", .array (jsonAll members))]
  | choice members => .object [("Choice", .array (jsonAll members))]
  | repeated content => .object [("Repeat", json content)]
  | prec value assoc content => .object [("Prec", .object
      [("value", value.json), ("assoc", assoc.json), ("content", json content)])]
  | aliased content value named => .object [("Alias", .object
      [("content", json content), ("value", .string value), ("named", .bool named)])]
  | field name content => .object [("Field", .object
      [("name", .string name), ("content", json content)])]

def jsonAll : List Expr → List Value
  | [] => []
  | e :: es => json e :: jsonAll es

end

end Expr

def ofMap {α : Type} (f : α → Value) (m : OrderedMap String α) : Value :=
  .object (m.entries.map fun e => (e.1, f e.2))

def SymbolKind.json : SymbolKind → Value
  | .nonterminal => .string "Nonterminal"
  | .token => .string "Token"
  | .lexical => .string "Lexical"
  | .hidden => .string "Hidden"
  | .supertype => .string "Supertype"

def NodeType.json (n : NodeType) : Value :=
  .object [("name", .string n.name), ("named", .bool n.named)]

def FieldInfo.json (f : FieldInfo) : Value :=
  .object [("multiple", .bool f.multiple), ("required", .bool f.required),
    ("types", .ofList NodeType.json f.types)]

def Variable.json (v : Variable) : Value :=
  .object [("name", .string v.name), ("kind", v.kind.json), ("body", v.body.json),
    ("inlined", .ofList .string v.inlined), ("fields", ofMap FieldInfo.json v.fields)]

def LexicalEntry.json (entry : LexicalEntry) : Value :=
  .object [("name", .string entry.name), ("named", .bool entry.named),
    ("content", entry.content.json), ("immediate", .bool entry.immediate)]

def ExternalToken.json (token : ExternalToken) : Value :=
  .object [("name", .string token.name), ("named", .bool token.named)]

def Level.json (l : Level) : Value := .object [("level", .int l.level), ("assoc", l.assoc.json)]

def Annotation.json (a : Annotation) : Value :=
  .object [("level", .ofOption .int a.level), ("assoc", a.assoc.json),
    ("dynamic", .ofOption .int a.dynamic)]

def Resolution.json : Resolution → Value
  | .preferReduce => .string "PreferReduce"
  | .preferShift => .string "PreferShift"
  | .nonAssociative => .string "NonAssociative"
  | .dynamic => .string "Dynamic"
  | .unresolved => .string "Unresolved"

def Alternative.json (a : Alternative) : Value :=
  .object [("precedence", a.precedence.json), ("self_referential", .bool a.selfReferential),
    ("left_open", .bool a.leftOpen), ("right_open", .bool a.rightOpen)]

def TieBreak.json (t : TieBreak) : Value :=
  .object [("reduce", .int t.reduce), ("shift", .int t.shift),
    ("resolution", t.resolution.json)]

def Disambiguation.json (d : Disambiguation) : Value :=
  .object [("rule", .string d.rule), ("id", .int d.id),
    ("alternatives", .ofList Alternative.json d.alternatives),
    ("tie_breaks", .ofList TieBreak.json d.tieBreaks)]

def AliasInfo.json (a : AliasInfo) : Value :=
  .object [("named", .bool a.named), ("sources", .ofList .string a.sources)]

namespace CompiledGrammar

def json (c : CompiledGrammar) : Value :=
  .object [
    ("name", .string c.name),
    ("start", .string c.start),
    ("variables", .ofList Variable.json c.vars),
    ("lexical", .ofList LexicalEntry.json c.lexicon),
    ("externals", .ofList ExternalToken.json c.externals),
    ("extras", .ofList Symbol.json c.extras),
    ("word", .ofOption Symbol.json c.word),
    ("conflicts", .ofList (.ofList .string) c.conflicts),
    ("supertypes", ofMap (.ofList .string) c.supertypes),
    ("levels", .object [("levels", ofMap Level.json c.levels)]),
    ("precedence", .ofList Disambiguation.json c.precedence),
    ("aliases", ofMap AliasInfo.json c.aliases)]

def toJson (c : CompiledGrammar) : String := c.json.pretty

end CompiledGrammar

end Productions
