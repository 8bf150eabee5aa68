import Productions.Json.Text

/-! Readers take characters from the front of a text. A value of any shape is read into `Content`;
containers may nest 127 deep. A value that is only skipped may nest to any depth. -/
namespace Productions.Json

/-- A value as it stands in a text: members of objects in order, names repeated as written. -/
inductive Content where
  | null
  | bool (b : Bool)
  | integer (n : Int)
  | float (f : Float)
  | string (s : String)
  | array (items : List Content)
  | object (members : List (String × Content))

instance : Inhabited Content := ⟨.null⟩

def Content.found : Content → Found
  | null => .null
  | bool b => .bool b
  | integer n => .integer n
  | float f => .float f
  | string s => .string s
  | array _ => .sequence
  | object _ => .map

abbrev Reader := StateT (List Char) (Except Fault)

namespace Reader

def fail {α : Type} (fault : DataFault) : Reader α := throw (.data fault)

def isBlank (c : Char) : Bool := c = ' ' || c = '\n' || c = '\t' || c = '\r'

def isDigit (c : Char) : Bool := '0' ≤ c && c ≤ '9'

def peek : Reader (Option Char) := do
  let cs := (← get).dropWhile isBlank
  set cs
  return cs.head?

def skipOne : Reader Unit := modify List.tail

def peekValue : Reader Char := do
  match ← peek with
  | some c => return c
  | none => throw .endOfInput

def letters : List Char → Reader Unit
  | [] => return
  | expected :: more => do
    match ← get with
    | [] => throw .endOfInput
    | c :: rest =>
      if c = expected then set rest; letters more else throw .syntaxError

def takeDigits : Reader (List Char) := do
  let cs ← get
  set (cs.dropWhile isDigit)
  return cs.takeWhile isDigit

def takeIf (p : Char → Bool) : Reader (Option Char) := do
  match ← get with
  | c :: rest => if p c then set rest; return some c else return none
  | [] => return none

def noDigits {α : Type} (lenient : Bool) : Reader α := do
  if (← get).isEmpty && !lenient then throw .endOfInput else throw .syntaxError

/-- The digits before the point: a leading zero stands alone. -/
def wholeDigits (lenient : Bool) : Reader (List Char) := do
  match ← takeDigits with
  | [] => noDigits lenient
  | ['0'] => return ['0']
  | '0' :: _ => throw .syntaxError
  | digits => return digits

def fractionDigits (lenient : Bool) : Reader (Option (List Char)) := do
  match ← takeIf (· = '.') with
  | none => return none
  | some _ =>
    match ← takeDigits with
    | [] => noDigits lenient
    | digits => return some digits

def exponent (lenient : Bool) : Reader (Option Int) := do
  match ← takeIf fun c => c = 'e' || c = 'E' with
  | none => return none
  | some _ =>
    let sign ← takeIf fun c => c = '+' || c = '-'
    match ← takeDigits with
    | [] => noDigits lenient
    | digits =>
      let n : Int := digitsValue digits
      return some (if sign = some '-' then -n else n)

/-- A whole number of 64 bits; zero with a sign is none. -/
def integer? (negative : Bool) (whole : List Char) : Option Int :=
  let n := digitsValue whole
  if negative then if 0 < n && n ≤ 0x8000000000000000 then some (-n) else none
  else if n ≤ maxWord then some n else none

def number (negative : Bool) : Reader Content := do
  let whole ← wholeDigits false
  let fraction ← fractionDigits false
  let power ← exponent false
  let whole? := if fraction.isNone && power.isNone then integer? negative whole else none
  match whole? with
  | some n => return .integer n
  | none =>
    match float? negative whole (fraction.getD []) (power.getD 0) with
    | some f => return .float f
    | none => throw .syntaxError

def skipNumber : Reader Unit := do
  discard (wholeDigits true)
  discard (fractionDigits true)
  discard (exponent true)

def stringRest (strict : Bool) : Reader String := fun cs => stringFrom strict .plain [] cs

def scalar (first : Char) : Reader Content := do
  if first = 'n' then skipOne; letters "ull".toList; return .null
  else if first = 't' then skipOne; letters "rue".toList; return .bool true
  else if first = 'f' then skipOne; letters "alse".toList; return .bool false
  else if first = '-' then skipOne; number true
  else if isDigit first then number false
  else if first = '"' then skipOne; return .string (← stringRest true)
  else throw .syntaxError

/-- Fails on a value of the wrong type. Scalars are read first, so that their own faults win. -/
def wrongType {α : Type} (first : Char) (expected : String) : Reader α := do
  let found ← if first = '[' then pure Found.sequence
    else if first = '\x7b' then pure Found.map
    else Content.found <$> scalar first
  fail (.invalidType found expected)

/-! The loops are bounded by a number that is at least the length of the text. -/

/-- Items up to the closing bracket, which is left. -/
def items {α : Type} (item : Reader α) : (bound : Nat) → (first : Bool) → Reader (List α)
  | 0, _ => throw .endOfInput
  | bound + 1, first => do
    match ← peek with
    | none => throw .endOfInput
    | some ']' => return []
    | some c =>
      if !first then
        if c = ',' then skipOne else throw .syntaxError
        if (← peekValue) = ']' then throw .syntaxError
      let a ← item
      let rest ← items item bound false
      return a :: rest

def key? (first : Bool) : Reader (Option String) := do
  match ← peek with
  | none => throw .endOfInput
  | some '\x7d' => return none
  | some c =>
    if !first then
      if c = ',' then skipOne else throw .syntaxError
    if (← peekValue) = '"' then
      skipOne
      return some (← stringRest true)
    else throw .syntaxError

def colon : Reader Unit := do
  match ← peek with
  | none => throw .endOfInput
  | some ':' => skipOne
  | some _ => throw .syntaxError

/-- Members up to the closing brace, which is left; each key is handed on with the state. -/
def members {σ : Type} (member : σ → String → Reader σ) :
    (bound : Nat) → (first : Bool) → σ → Reader σ
  | 0, _, _ => throw .endOfInput
  | bound + 1, first, s => do
    match ← key? first with
    | none => return s
    | some key =>
      let s ← member s key
      members member bound false s

def close (c : Char) : Reader Unit := do
  match ← peek with
  | none => throw .endOfInput
  | some d => if c = d then skipOne else throw .syntaxError

def arrayOf {α : Type} (bound : Nat) (item : Reader α) : Reader (List α) := do
  skipOne
  let found ← items item bound true
  close ']'
  return found

def objectOf {σ : Type} (bound : Nat) (start : σ) (member : σ → String → Reader σ) : Reader σ := do
  skipOne
  let found ← members member bound true start
  close '\x7d'
  return found

/-- A member of an object whose value is read by `inner`, put before the members so far. -/
def contentMember (inner : Reader Content) (found : List (String × Content)) (key : String) :
    Reader (List (String × Content)) := do
  colon
  return (key, ← inner) :: found

/-- A value of any shape; without a reader for inner values no container is allowed. -/
def contentWith (bound : Nat) (inner : Option (Reader Content)) : Reader Content := do
  let c ← peekValue
  if c = '[' then
    match inner with
    | none => throw .syntaxError
    | some inner => return .array (← arrayOf bound inner)
  else if c = '\x7b' then
    match inner with
    | none => throw .syntaxError
    | some inner => return .object (← objectOf bound [] (contentMember inner)).reverse
  else scalar c

def content (bound : Nat) : (depth : Nat) → Reader Content
  | 0 => contentWith bound none
  | depth + 1 => contentWith bound (some (content bound depth))

def skipMember (inner : Reader Unit) : Reader Unit := do
  skipOne
  discard (stringRest false)
  colon
  inner

def skipMembers (inner : Reader Unit) : (bound : Nat) → (first : Bool) → Reader Unit
  | 0, _ => throw .endOfInput
  | bound + 1, first => do
    match ← peek with
    | none => throw .endOfInput
    | some '\x7d' => return
    | some c =>
      if !first then
        if c = ',' then skipOne else throw .syntaxError
      if (← peekValue) = '"' then skipMember inner else throw .syntaxError
      skipMembers inner bound false

/-- Skips a value that may nest to any depth; a container takes at least one character. -/
def skip (bound : Nat) : (fuel : Nat) → Reader Unit
  | 0 => throw .endOfInput
  | fuel + 1 => do
    let c ← peekValue
    if c = '[' then discard (arrayOf bound (skip bound fuel))
    else if c = '\x7b' then
      skipOne
      skipMembers (skip bound fuel) bound true
      close '\x7d'
    else if c = '-' then
      skipOne
      skipNumber
    else if isDigit c then skipNumber
    else if c = '"' then
      skipOne
      discard (stringRest false)
    else discard (scalar c)

end Reader

end Productions.Json
