/-! Values to be written as JSON, on one line or with two blanks of indentation per level. Members
of an object stand in the order in which they are listed. -/
namespace Productions.Json

inductive Value where
  | null
  | bool (b : Bool)
  | int (n : Int)
  | string (s : String)
  | array (items : List Value)
  | object (members : List (String × Value))

namespace Value

instance : Inhabited Value := ⟨null⟩

def hexDigits : List Char :=
  ['0', '1', '2', '3', '4', '5', '6', '7', '8', '9', 'a', 'b', 'c', 'd', 'e', 'f']

/-- Quotes, backslashes and control characters are escaped, and nothing else. -/
def escapeChar (c : Char) : List Char :=
  match c with
  | '"' => ['\\', '"']
  | '\\' => ['\\', '\\']
  | '\n' => ['\\', 'n']
  | '\r' => ['\\', 'r']
  | '\t' => ['\\', 't']
  | '\x08' => ['\\', 'b']
  | '\x0C' => ['\\', 'f']
  | _ =>
    if c.toNat < 0x20 then
      ['\\', 'u', '0', '0', hexDigits.getD (c.toNat / 16) '0', hexDigits.getD (c.toNat % 16) '0']
    else [c]

def quote (s : String) : String :=
  "\"" ++ String.ofList (s.toList.flatMap escapeChar) ++ "\""

def ofList {α : Type} (f : α → Value) (xs : List α) : Value := array (xs.map f)

def ofOption {α : Type} (f : α → Value) : Option α → Value
  | none => null
  | some a => f a

mutual

def compact : Value → String
  | null => "null"
  | bool b => if b then "true" else "false"
  | int n => toString n
  | string s => quote s
  | array items => "[" ++ compactItems items ++ "]"
  | object members => "\x7b" ++ compactMembers members ++ "\x7d"

def compactItems : List Value → String
  | [] => ""
  | [v] => compact v
  | v :: vs => compact v ++ "," ++ compactItems vs

def compactMembers : List (String × Value) → String
  | [] => ""
  | [(k, v)] => quote k ++ ":" ++ compact v
  | (k, v) :: ms => quote k ++ ":" ++ compact v ++ "," ++ compactMembers ms

end

def indent (level : Nat) : String := "\n" ++ String.ofList (List.replicate (2 * level) ' ')

mutual

def prettyAt (level : Nat) : Value → String
  | null => "null"
  | bool b => if b then "true" else "false"
  | int n => toString n
  | string s => quote s
  | array items =>
    if items.isEmpty then "[]"
    else "[" ++ prettyItems (level + 1) items ++ indent level ++ "]"
  | object members =>
    if members.isEmpty then "\x7b\x7d"
    else "\x7b" ++ prettyMembers (level + 1) members ++ indent level ++ "\x7d"

def prettyItems (level : Nat) : List Value → String
  | [] => ""
  | [v] => indent level ++ prettyAt level v
  | v :: vs => indent level ++ prettyAt level v ++ "," ++ prettyItems level vs

def prettyMembers (level : Nat) : List (String × Value) → String
  | [] => ""
  | [(k, v)] => indent level ++ quote k ++ ": " ++ prettyAt level v
  | (k, v) :: ms =>
    indent level ++ quote k ++ ": " ++ prettyAt level v ++ "," ++ prettyMembers level ms

end

/-- The value with one item or member per line. An empty array or object stays on one line. -/
def pretty (v : Value) : String := prettyAt 0 v

end Value

end Productions.Json
