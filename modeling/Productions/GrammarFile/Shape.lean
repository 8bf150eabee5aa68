import Productions.Grammar.Basic
import Productions.Json.Text

/-! A rule in a grammar file carries its type and the fields of that type. A field holds a text,
optional flags, a truth value, a rule, a list of rules, a level, or a level or name. -/
namespace Productions.GrammarFile

inductive RuleType where
  | blank
  | string
  | pattern
  | symbol
  | seq
  | choice
  | repeated
  | repeatedOnce
  | field
  | aliased
  | token
  | immediateToken
  | prec
  | precLeft
  | precRight
  | precDynamic
  | reserved
  deriving DecidableEq, Repr

inductive Part where
  | text
  | flags
  | truth
  | rule
  | rules
  | level
  | precedence
  deriving DecidableEq, Repr

def RuleType.named : List (String × RuleType) := [
  ("BLANK", .blank), ("STRING", .string), ("PATTERN", .pattern), ("SYMBOL", .symbol),
  ("SEQ", .seq), ("CHOICE", .choice), ("REPEAT", .repeated), ("REPEAT1", .repeatedOnce),
  ("FIELD", .field), ("ALIAS", .aliased), ("TOKEN", .token),
  ("IMMEDIATE_TOKEN", .immediateToken), ("PREC", .prec), ("PREC_LEFT", .precLeft),
  ("PREC_RIGHT", .precRight), ("PREC_DYNAMIC", .precDynamic), ("RESERVED", .reserved)]

def RuleType.fields : RuleType → List (String × Part)
  | blank => []
  | string => [("value", .text)]
  | pattern => [("value", .text), ("flags", .flags)]
  | symbol => [("name", .text)]
  | seq | choice => [("members", .rules)]
  | repeated | repeatedOnce | token | immediateToken => [("content", .rule)]
  | field => [("name", .text), ("content", .rule)]
  | aliased => [("content", .rule), ("value", .text), ("named", .truth)]
  | prec | precLeft | precRight => [("value", .precedence), ("content", .rule)]
  | precDynamic => [("value", .level), ("content", .rule)]
  | reserved => [("context_name", .text), ("content", .rule)]

inductive Value where
  | text (s : String)
  | flags (flags : Option String)
  | truth (b : Bool)
  | rule (rule : Rule)
  | rules (rules : List Rule)
  | precedence (value : Precedence)

abbrev Found := List (String × Value)

namespace Found

open Json (DataFault)

variable (found : Found)

def get {α : Type} (name : String) (pick : Value → Option α) : Except DataFault α :=
  match (found.lookup name).bind pick with
  | some a => .ok a
  | none => .error (.missingField name)

def text (name : String) : Except DataFault String :=
  found.get name fun
    | .text s => some s
    | _ => none

def truth (name : String) : Except DataFault Bool :=
  found.get name fun
    | .truth b => some b
    | _ => none

def rule (name : String) : Except DataFault Rule :=
  found.get name fun
    | .rule r => some r
    | _ => none

def rules (name : String) : Except DataFault (List Rule) :=
  found.get name fun
    | .rules rs => some rs
    | _ => none

def precedence (name : String) : Except DataFault Precedence :=
  found.get name fun
    | .precedence p => some p
    | _ => none

def flags (name : String) : Option String :=
  match found.lookup name with
  | some (.flags flags) => flags
  | _ => none

end Found

/-- The rule of a type with its fields. The first missing field in their order is the fault. -/
def RuleType.build (found : Found) : RuleType → Except Json.DataFault Rule
  | blank => return .blank
  | string => return .terminal (.literal (← found.text "value"))
  | pattern => return .terminal (.pattern (← found.text "value") (found.flags "flags"))
  | symbol => return .symbol (← found.text "name")
  | seq => return .seq (← found.rules "members")
  | choice => return .choice (← found.rules "members")
  | repeated => return .repeated (← found.rule "content") .zeroOrMore
  | repeatedOnce => return .repeated (← found.rule "content") .oneOrMore
  | field => return .field (← found.text "name") (← found.rule "content")
  | aliased =>
    return .aliased (← found.rule "content") (← found.text "value") (← found.truth "named")
  | token => return .token (← found.rule "content") false
  | immediateToken => return .token (← found.rule "content") true
  | prec => return .prec (← found.precedence "value") .none (← found.rule "content")
  | precLeft => return .prec (← found.precedence "value") .left (← found.rule "content")
  | precRight => return .prec (← found.precedence "value") .right (← found.rule "content")
  | precDynamic => return .prec (← found.precedence "value") .dynamic (← found.rule "content")
  | reserved => do
    discard (found.text "context_name")
    found.rule "content"

inductive EntryType where
  | name
  | symbol
  deriving DecidableEq, Repr

def EntryType.named : List (String × EntryType) := [("STRING", .name), ("SYMBOL", .symbol)]

def EntryType.fields : EntryType → List (String × Part)
  | name => [("value", .text)]
  | symbol => [("name", .text)]

def EntryType.build (found : Found) : EntryType → Except Json.DataFault OrderingEntry
  | name => return .name (← found.text "value")
  | symbol => return .symbol (← found.text "name")

/-- A family of records told apart by their type: how it is called in faults, the names of its
types in order, the fields of each, and what they make. -/
structure Family (τ β : Type) where
  title : String
  named : List (String × τ)
  fields : τ → List (String × Part)
  build : Found → τ → Except Json.DataFault β

def ruleFamily : Family RuleType Rule :=
  ⟨"RawRule", RuleType.named, RuleType.fields, RuleType.build⟩

def entryFamily : Family EntryType OrderingEntry :=
  ⟨"RawPrecedenceEntry", EntryType.named, EntryType.fields, EntryType.build⟩

namespace Family

variable {τ β : Type} (f : Family τ β)

def expected : String := "internally tagged enum " ++ f.title

def ofName (name : String) : Except Json.DataFault τ :=
  match f.named.lookup name with
  | some type => .ok type
  | none => .error (.unknownVariant name (f.named.map Prod.fst))

end Family

end Productions.GrammarFile
