import Productions.GrammarFile.Shape
import Productions.Json.Reader

/-! A record is an object with its type under `type`, or an array with its type first and then its
fields in order. The fields of an object are read in the order in which they stand; unknown ones are
passed over. Records inside records come from values that have been read as a whole, where a type
may also be given by its number. -/
namespace Productions.GrammarFile

open Json (Content DataFault)

def typeKey : String := "type"

def typeFault {α : Type} (c : Content) (expected : String) : Except DataFault α :=
  .error (.invalidType c.found expected)

def textOf (c : Content) : Except DataFault String :=
  match c with
  | .string s => .ok s
  | _ => typeFault c "a string"

def truthOf (c : Content) : Except DataFault Bool :=
  match c with
  | .bool b => .ok b
  | _ => typeFault c "a boolean"

def fitsLevel (n : Int) : Bool := -0x80000000 ≤ n && n < 0x80000000

def levelOf (c : Content) : Except DataFault Int :=
  match c with
  | .integer n => if fitsLevel n then .ok n else .error (.invalidValue (.integer n) "i32")
  | _ => typeFault c "i32"

def flagsOf (c : Content) : Except DataFault (Option String) :=
  match c with
  | .null => .ok none
  | _ => some <$> textOf c

def precedenceOf (c : Content) : Except DataFault Precedence :=
  match c with
  | .integer n =>
    if fitsLevel n then .ok (.integer n) else .error (.noVariantMatches "RawPrecedence")
  | .string s => .ok (.name s)
  | _ => .error (.noVariantMatches "RawPrecedence")

def rulesOf (inner : Content → Except DataFault Rule) (c : Content) :
    Except DataFault (List Rule) :=
  match c with
  | .array items => items.mapM inner
  | _ => typeFault c "a sequence"

def fieldOf (inner : Content → Except DataFault Rule) (part : Part) (c : Content) :
    Except DataFault Value :=
  match part with
  | .text => .text <$> textOf c
  | .flags => .flags <$> flagsOf c
  | .truth => .truth <$> truthOf c
  | .rule => .rule <$> inner c
  | .rules => .rules <$> rulesOf inner c
  | .level => (fun n => .precedence (.integer n)) <$> levelOf c
  | .precedence => .precedence <$> precedenceOf c

def foundInMembers (inner : Content → Except DataFault Rule) (fields : List (String × Part)) :
    Found → List (String × Content) → Except DataFault Found
  | found, [] => .ok found
  | found, (key, c) :: members =>
    match fields.lookup key with
    | none => foundInMembers inner fields found members
    | some part =>
      if (found.lookup key).isSome then .error (.duplicateField key)
      else do foundInMembers inner fields ((key, ← fieldOf inner part c) :: found) members

def foundInItems (inner : Content → Except DataFault Rule) :
    List (String × Part) → List Content → Except DataFault Found
  | (name, part) :: fields, c :: items => do
    let value ← fieldOf inner part c
    return (name, value) :: (← foundInItems inner fields items)
  | _, _ => .ok []

def elements (n : Nat) : String := toString n ++ if n = 1 then " element" else " elements"

def isOptional (part : Part) : Bool := part == .flags

def checkLength (record : String) (fields : List (String × Part)) (count : Nat) :
    Except DataFault Unit :=
  if fields.length < count then
    .error (.invalidLength count (elements fields.length ++ " in sequence"))
  else
    match (fields.zipIdx.drop count).find? fun f => !isOptional f.1.2 with
    | some missing =>
      .error (.invalidLength missing.2
        ("struct variant " ++ record ++ " with " ++ elements fields.length))
    | none => .ok ()

/-- A record of a known type from the rest of its content. -/
def recordOf {τ β : Type} (f : Family τ β) (inner : Content → Except DataFault Rule)
    (name : String) (type : τ) (rest : Content) : Except DataFault β :=
  match rest with
  | .object members => do
    f.build (← foundInMembers inner (f.fields type) [] members) type
  | .array items => do
    let found ← foundInItems inner (f.fields type) items
    checkLength (f.title ++ "::" ++ name) (f.fields type) items.length
    f.build found type
  | _ => typeFault rest ("struct variant " ++ f.title ++ "::" ++ name)

def typeOf {τ β : Type} (f : Family τ β) (c : Content) : Except DataFault (String × τ) :=
  match c with
  | .string name => do return (name, ← f.ofName name)
  | .integer n =>
    if n < 0 then typeFault c "variant identifier"
    else match f.named[n.toNat]? with
      | some found => .ok found
      | none => .error (.invalidValue (.integer n)
          ("variant index 0 <= i < " ++ toString f.named.length))
  | _ => typeFault c "variant identifier"

/-- The type among the members of an object, and the other members in order. -/
def splitType {τ β : Type} (f : Family τ β) :
    Option (String × τ) → List (String × Content) → List (String × Content) →
      Except DataFault ((String × τ) × List (String × Content))
  | none, _, [] => .error (.missingField typeKey)
  | some type, others, [] => .ok (type, others.reverse)
  | known, others, (key, c) :: members =>
    if key = typeKey then
      if known.isSome then .error (.duplicateField typeKey)
      else do splitType f (some (← typeOf f c)) others members
    else splitType f known ((key, c) :: others) members

def ofContent {τ β : Type} (f : Family τ β) (inner : Content → Except DataFault Rule)
    (c : Content) : Except DataFault β :=
  match c with
  | .object members => do
    let (type, others) ← splitType f none [] members
    recordOf f inner type.1 type.2 (.object others)
  | .array [] => .error (.missingField typeKey)
  | .array (first :: items) => do
    let type ← typeOf f first
    recordOf f inner type.1 type.2 (.array items)
  | _ => typeFault c f.expected

/-- A rule from a value in which rules nest at most `depth` deep. -/
def ruleOf : (depth : Nat) → Content → Except DataFault Rule
  | 0, _ => .error (.missingField typeKey)
  | depth + 1, c => ofContent ruleFamily (ruleOf depth) c

end Productions.GrammarFile
