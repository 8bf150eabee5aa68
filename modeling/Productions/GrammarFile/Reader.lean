import Productions.GrammarFile.Record

/-! A grammar file is a JSON object, or an array of the values in the order of its keys. The name
and the rules have to be there; all else may be left out. Unknown keys are skipped. A text is read
from the left and the first fault decides; a record is read as a whole before its fields are looked
at. -/
namespace Productions

namespace GrammarFile

open Json (Content DataFault Fault Reader)
open Json.Reader

def nestLimit : Nat := 127

def orFail {α : Type} : Except DataFault α → Reader α
  | .ok a => return a
  | .error fault => fail fault

def text : Reader String := do
  let c ← peekValue
  if c = '"' then
    skipOne
    stringRest true
  else wrongType c "a string"

def optionalText : Reader (Option String) := do
  let c ← peekValue
  if c = 'n' then
    skipOne
    letters "ull".toList
    return none
  else some <$> text

def listOf {α : Type} (bound : Nat) (item : Reader α) : Reader (List α) := do
  let c ← peekValue
  if c = '[' then arrayOf bound item else wrongType c "a sequence"

def typeName {τ β : Type} (f : Family τ β) : Reader (String × τ) := do
  let c ← peekValue
  if c = '"' then
    skipOne
    let name ← stringRest true
    return (name, ← orFail (f.ofName name))
  else wrongType c "variant identifier"

/-- The type of a record, if it has been met, and its other members, the last one first. -/
structure Parts (τ : Type) where
  type : Option (String × τ)
  others : List (String × Content)

def recordMember {τ β : Type} (f : Family τ β) (inner : Reader Content) (parts : Parts τ)
    (key : String) : Reader (Parts τ) := do
  if key = typeKey then
    if parts.type.isSome then fail (.duplicateField typeKey)
    colon
    return { parts with type := some (← typeName f) }
  else
    colon
    return { parts with others := (key, ← inner) :: parts.others }

def recordItems (bound : Nat) (inner : Reader Content) : Reader (List Content) := do
  let found ← items inner bound false
  close ']'
  return found

/-- A record with at most `depth + 1` nested containers, itself included. -/
def record {τ β : Type} (f : Family τ β) (bound depth : Nat) : Reader β := do
  let c ← peekValue
  let inner := content bound depth
  let build := recordOf f (ruleOf (depth + 1))
  if c = '\x7b' then
    let parts ← objectOf bound ⟨none, []⟩ (recordMember f inner)
    match parts.type with
    | none => fail (.missingField typeKey)
    | some type => orFail (build type.1 type.2 (.object parts.others.reverse))
  else if c = '[' then
    skipOne
    if (← peekValue) = ']' then fail (.missingField typeKey)
    let type ← typeName f
    let found ← recordItems bound inner
    orFail (build type.1 type.2 (.array found))
  else wrongType c f.expected

def ruleEntry (bound : Nat) (found : List Definition) (name : String) :
    Reader (List Definition) := do
  colon
  let body ← record ruleFamily bound (nestLimit - 3)
  return ⟨name, body, Grammar.isHiddenName name⟩ :: found

def rules (bound : Nat) : Reader (List Definition) := do
  let c ← peekValue
  if c = '\x7b' then return (← objectOf bound [] (ruleEntry bound)).reverse
  else wrongType c "a map of rule names to rules"

def extras (bound : Nat) : Reader (List Rule) :=
  listOf bound (record ruleFamily bound (nestLimit - 3))

def orderings (bound : Nat) : Reader (List (List OrderingEntry)) :=
  listOf bound (listOf bound (record entryFamily bound (nestLimit - 4)))

def names (bound : Nat) : Reader (List String) := listOf bound text

def nameSets (bound : Nat) : Reader (List (List String)) := listOf bound (names bound)

/-- The declarations of a grammar as far as they have been met. -/
structure Draft where
  name : Option String
  rules : Option (List Definition)
  extras : Option (List Rule)
  precedences : Option (List (List OrderingEntry))
  conflicts : Option (List (List String))
  externals : Option (List Rule)
  inlined : Option (List String)
  supertypes : Option (List String)
  word : Option (Option String)

namespace Draft

def empty : Draft := ⟨none, none, none, none, none, none, none, none, none⟩

/-- What has not been met is empty, apart from the name and the rules. -/
def build (d : Draft) : Except DataFault Grammar := do
  let some name := d.name | .error (.missingField "name")
  let some rules := d.rules | .error (.missingField "rules")
  return ⟨name, rules, d.extras.getD [], d.precedences.getD [], d.conflicts.getD [],
    d.externals.getD [], d.inlined.getD [], d.supertypes.getD [], d.word.getD none⟩

end Draft

def once {α : Type} (known : Option α) (key : String) (value : Reader α) : Reader (Option α) := do
  if known.isSome then fail (.duplicateField key)
  colon
  return some (← value)

def declaration (bound : Nat) (d : Draft) (key : String) : Reader Draft := do
  match key with
  | "name" => return { d with name := ← once d.name key text }
  | "rules" => return { d with rules := ← once d.rules key (rules bound) }
  | "extras" => return { d with extras := ← once d.extras key (extras bound) }
  | "precedences" => return { d with precedences := ← once d.precedences key (orderings bound) }
  | "conflicts" => return { d with conflicts := ← once d.conflicts key (nameSets bound) }
  | "externals" => return { d with externals := ← once d.externals key (extras bound) }
  | "inline" => return { d with inlined := ← once d.inlined key (names bound) }
  | "supertypes" => return { d with supertypes := ← once d.supertypes key (names bound) }
  | "word" => return { d with word := ← once d.word key optionalText }
  | _ =>
    colon
    skip bound bound
    return d

def grammarTitle : String := "struct RawGrammar"

def nextItem {α : Type} (first : Bool) (item : Reader α) : Reader (Option α) := do
  match ← peek with
  | none => throw .endOfInput
  | some ']' => return none
  | some c =>
    if !first then
      if c = ',' then skipOne else throw .syntaxError
      if (← peekValue) = ']' then throw .syntaxError
    return some (← item)

def neededItem {α : Type} (index : Nat) (item : Reader α) : Reader (Option α) := do
  match ← nextItem (index == 0) item with
  | some a => return some a
  | none => fail (.invalidLength index (grammarTitle ++ " with 9 elements"))

def declarations (bound : Nat) : Reader Draft := do
  let name ← neededItem 0 text
  let rules ← neededItem 1 (rules bound)
  let extras' ← nextItem false (extras bound)
  let precedences ← nextItem false (orderings bound)
  let conflicts ← nextItem false (nameSets bound)
  let externals ← nextItem false (extras bound)
  let inlined ← nextItem false (names bound)
  let supertypes ← nextItem false (names bound)
  let word ← nextItem false optionalText
  return ⟨name, rules, extras', precedences, conflicts, externals, inlined, supertypes, word⟩

def grammar (bound : Nat) : Reader Grammar := do
  let c ← peekValue
  if c = '\x7b' then orFail (← objectOf bound .empty (declaration bound)).build
  else if c = '[' then
    skipOne
    let d ← declarations bound
    close ']'
    orFail d.build
  else wrongType c grammarTitle

def grammarOnly (bound : Nat) : Reader Grammar := do
  let g ← grammar bound
  match ← peek with
  | none => return g
  | some _ => throw .syntaxError

end GrammarFile

namespace Grammar

/-- Reads the text of a grammar file. -/
def ofFile (text : String) : Except Json.Fault Grammar :=
  match GrammarFile.grammarOnly (text.length + 1) text.toList with
  | .ok (g, _) => .ok g
  | .error fault => .error fault

end Grammar

end Productions
