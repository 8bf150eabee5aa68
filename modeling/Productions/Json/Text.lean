import Productions.Text.Literal

/-! Numbers and strings in JSON text, and what can be wrong with it. Numbers with a fraction or an
exponent, and whole numbers beyond 64 bits, are floating-point: as many digits as fit into 64 bits
are multiplied or divided by a power of ten. Characters beyond 16 bits may be escaped as two
surrogates, which have to come in pairs; a string that is only skipped may hold any surrogates. The
first fault from the left decides. -/
namespace Productions.Json

def maxWord : Nat := UInt64.size - 1

def digitValue (c : Char) : Nat := c.toNat - '0'.toNat

/-- Appends digits to a number as long as it stays within 64 bits; also counts them. -/
def absorb (significand : Nat) : List Char → Nat × Nat
  | [] => (significand, 0)
  | c :: cs =>
    let next := 10 * significand + digitValue c
    if maxWord < next then (significand, 0)
    else
      let (result, count) := absorb next cs
      (result, count + 1)

def digitsValue (cs : List Char) : Nat := cs.foldl (fun n c => 10 * n + digitValue c) 0

def powerOfTen (n : Nat) : Float := Float.ofScientific 1 false n

def divideDown : (fuel : Nat) → Float → (exponent : Nat) → Float
  | 0, f, _ => f
  | fuel + 1, f, exponent =>
    if exponent ≤ 308 then f / powerOfTen exponent
    else divideDown fuel (f / powerOfTen 308) (exponent - 308)

/-- `significand · 10 ^ exponent`, unless it is too large. Three divisions by 10³⁰⁸ leave nothing
of any number of 64 bits. -/
def scale? (significand : Nat) (exponent : Int) : Option Float :=
  let f := Float.ofNat significand
  if significand = 0 then some 0.0
  else if 308 < exponent then none
  else if 0 ≤ exponent then
    let product := f * powerOfTen exponent.toNat
    if product.isInf then none else some product
  else some (divideDown 4 f (-exponent).toNat)

def float? (negative : Bool) (whole fraction : List Char) (exponent : Int) : Option Float :=
  let (significand, used) := absorb 0 whole
  let (significand, usedAfter) := absorb significand fraction
  (scale? significand (exponent + (whole.length - used : Nat) - usedAfter)).map fun f =>
    if negative then -f else f

def zeros (n : Nat) : String := String.ofList (List.replicate n '0')

/-- Positional from 10⁻⁵ up to 10¹⁶ with at least one digit on each side of the point, and with an
exponent beyond. -/
def decimalText (d : Decimal.Scaled) : String :=
  let digits := toString d.digits
  let length := digits.length
  let point := length + d.exponent
  if 0 ≤ d.exponent && point ≤ 16 then digits ++ zeros d.exponent.toNat ++ ".0"
  else if 0 < point && point ≤ 16 then
    String.ofList (digits.toList.take point.toNat) ++ "."
      ++ String.ofList (digits.toList.drop point.toNat)
  else if -5 < point && point ≤ 0 then "0." ++ zeros (-point).toNat ++ digits
  else
    String.ofList (digits.toList.take 1)
      ++ (if length = 1 then "" else "." ++ String.ofList (digits.toList.drop 1))
      ++ "e" ++ toString (point - 1)

def floatText (f : Float) : String :=
  let b := Decimal.Binary.ofBits f.toBits.toNat
  (if b.negative then "-" else "")
    ++ if b.significand = 0 then "0.0" else decimalText (Decimal.shortest b)

inductive Found where
  | null
  | bool (b : Bool)
  | integer (n : Int)
  | float (f : Float)
  | string (s : String)
  | sequence
  | map
  deriving DecidableEq

def Found.text : Found → String
  | null => "null"
  | bool b => "boolean `" ++ (if b then "true" else "false") ++ "`"
  | integer n => "integer `" ++ toString n ++ "`"
  | float f => "floating point `" ++ floatText f ++ "`"
  | string s => "string " ++ Text.quoted s
  | sequence => "sequence"
  | map => "map"

inductive DataFault where
  | missingField (name : String)
  | duplicateField (name : String)
  | unknownVariant (name : String) (known : List String)
  | invalidType (found : Found) (expected : String)
  | invalidValue (found : Found) (expected : String)
  | invalidLength (length : Nat) (expected : String)
  | noVariantMatches (enumeration : String)
  deriving DecidableEq

def inTicks (name : String) : String := "`" ++ name ++ "`"

def knownText : List String → String
  | [a, b] => "expected " ++ inTicks a ++ " or " ++ inTicks b
  | names => "expected one of " ++ ", ".intercalate (names.map inTicks)

def DataFault.message : DataFault → String
  | missingField name => "missing field " ++ inTicks name
  | duplicateField name => "duplicate field " ++ inTicks name
  | unknownVariant name known =>
    "unknown variant " ++ inTicks name ++ ", " ++ knownText known
  | invalidType found expected => "invalid type: " ++ found.text ++ ", expected " ++ expected
  | invalidValue found expected => "invalid value: " ++ found.text ++ ", expected " ++ expected
  | invalidLength length expected =>
    "invalid length " ++ toString length ++ ", expected " ++ expected
  | noVariantMatches enumeration =>
    "data did not match any variant of untagged enum " ++ enumeration

inductive Fault where
  | syntaxError
  | endOfInput
  | data (fault : DataFault)
  deriving DecidableEq

/-- Where the reader is within a string: between characters, after a backslash, among the four
digits of an escape, or between the two halves of a pair. -/
inductive StringState where
  | plain
  | escape
  | hex (left value : Nat)
  | lead (unit : Nat)
  | leadEscape (unit : Nat)
  | trail (unit left value : Nat)

def hexValue? (c : Char) : Option Nat :=
  if c.isDigit then some (c.toNat - '0'.toNat)
  else if 'a' ≤ c && c ≤ 'f' then some (c.toNat - 'a'.toNat + 10)
  else if 'A' ≤ c && c ≤ 'F' then some (c.toNat - 'A'.toNat + 10)
  else none

def hasFourBytes (cs : List Char) : Bool :=
  4 ≤ (String.ofList (cs.take 4)).utf8ByteSize

def simpleEscape? : Char → Option Char
  | '"' => some '"'
  | '\\' => some '\\'
  | '/' => some '/'
  | 'b' => some '\x08'
  | 'f' => some '\x0C'
  | 'n' => some '\n'
  | 'r' => some '\r'
  | 't' => some '\t'
  | _ => none

def isLead (unit : Nat) : Bool := 0xD800 ≤ unit && unit ≤ 0xDBFF
def isTrail (unit : Nat) : Bool := 0xDC00 ≤ unit && unit ≤ 0xDFFF

/-- The state and the characters so far after one more character; `none` at the closing quote. -/
def stringStep (strict : Bool) (state : StringState) (read : List Char) (c : Char)
    (rest : List Char) : Except Fault (Option (StringState × List Char)) :=
  match state with
  | .plain =>
    if c = '"' then .ok none
    else if c = '\\' then .ok (some (.escape, read))
    else if c.toNat < 0x20 then .error .syntaxError
    else .ok (some (.plain, c :: read))
  | .escape =>
    if c = 'u' then
      if hasFourBytes rest then .ok (some (.hex 4 0, read)) else .error .endOfInput
    else match simpleEscape? c with
      | some d => .ok (some (.plain, d :: read))
      | none => .error .syntaxError
  | .hex left value =>
    match hexValue? c with
    | none => .error .syntaxError
    | some h =>
      let unit := 16 * value + h
      if 1 < left then .ok (some (.hex (left - 1) unit, read))
      else if !strict then .ok (some (.plain, read))
      else if isTrail unit then .error .syntaxError
      else if isLead unit then .ok (some (.lead unit, read))
      else .ok (some (.plain, Char.ofNat unit :: read))
  | .lead unit => if c = '\\' then .ok (some (.leadEscape unit, read)) else .error .syntaxError
  | .leadEscape unit =>
    if c = 'u' then
      if hasFourBytes rest then .ok (some (.trail unit 4 0, read)) else .error .endOfInput
    else .error .syntaxError
  | .trail lead left value =>
    match hexValue? c with
    | none => .error .syntaxError
    | some h =>
      let unit := 16 * value + h
      if 1 < left then .ok (some (.trail lead (left - 1) unit, read))
      else if isTrail unit then
        .ok (some (.plain,
          Char.ofNat (0x10000 + 0x400 * (lead - 0xD800) + (unit - 0xDC00)) :: read))
      else .error .syntaxError

/-- Reads up to the closing quote; `read` holds the characters so far, the last one first. -/
def stringFrom (strict : Bool) (state : StringState) (read : List Char) :
    List Char → Except Fault (String × List Char)
  | [] => .error .endOfInput
  | c :: rest =>
    match stringStep strict state read c rest with
    | .error fault => .error fault
    | .ok none => .ok (String.ofList read.reverse, rest)
    | .ok (some (state, read)) => stringFrom strict state read rest

end Productions.Json
