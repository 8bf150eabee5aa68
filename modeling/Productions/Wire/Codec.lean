import Productions.Ordered.Map

/-! Values are written one after the other without names or tags for the parts of a record. A number
is written in groups of seven bits, the lowest first, with the high bit of a byte telling that more
follow; texts, lists and maps begin with their length; a choice begins with the place of its case.
Reading leaves the bytes that follow a value. -/
namespace Productions.Wire

abbrev Bytes := List UInt8

inductive Fault where
  | endOfInput
  | unendingNumber
  | invalidBool
  | invalidText
  | invalidOption
  | unknownCase
  deriving DecidableEq, Repr

def Fault.message : Fault → String
  | endOfInput => "Hit the end of buffer, expected more data"
  | unendingNumber =>
    "Found a varint that didn't terminate. Is the usize too big for this platform?"
  | invalidBool => "Found a bool that wasn't 0 or 1"
  | invalidText => "Tried to parse invalid utf-8"
  | invalidOption => "Found an Option discriminant that wasn't 0 or 1"
  | unknownCase => "Serde Deserialization Error"

abbrev Decoder := StateT Bytes (Except Fault)

structure Codec (α : Type) where
  encode : α → Bytes
  decode : Decoder α

def byte : Decoder UInt8 := fun
  | [] => .error .endOfInput
  | b :: rest => .ok (b, rest)

def encodeNat (n : Nat) : Bytes :=
  if n < 128 then [n.toUInt8] else (n % 128 + 128).toUInt8 :: encodeNat (n / 128)

/-- Reads a number of at most `more + 1` bytes whose last possible byte is at most `top`. -/
def decodeNat (top : Nat) : (more : Nat) → Decoder Nat
  | 0 => do
    let b ← byte
    if b.toNat ≤ top then return b.toNat else throw .unendingNumber
  | more + 1 => do
    let b ← byte
    if b.toNat < 128 then return b.toNat
    else return b.toNat - 128 + 128 * (← decodeNat top more)

namespace Codec

/-- Numbers below 2³²: five bytes at most, the last one at most 15. -/
def word : Codec Nat := ⟨encodeNat, decodeNat 15 4⟩

/-- Numbers below 2⁶⁴: ten bytes at most, the last one at most 1. -/
def size : Codec Nat := ⟨encodeNat, decodeNat 1 9⟩

def via {α β : Type} (c : Codec α) (f : β → α) (g : α → β) : Codec β :=
  ⟨fun b => c.encode (f b), g <$> c.decode⟩

/-- Signed numbers as naturals in the order 0, -1, 1, -2, 2, … -/
def zigzag : Int → Nat
  | .ofNat n => 2 * n
  | .negSucc n => 2 * n + 1

def unzigzag (n : Nat) : Int := if n % 2 = 0 then Int.ofNat (n / 2) else Int.negSucc (n / 2)

def level : Codec Int := word.via zigzag unzigzag

def decodeBool : Decoder Bool := do
  match ← byte with
  | 0 => return false
  | 1 => return true
  | _ => throw .invalidBool

def bool : Codec Bool := ⟨fun b => [if b then 1 else 0], decodeBool⟩

def take (n : Nat) : Decoder Bytes := fun bytes =>
  if bytes.length < n then .error .endOfInput else .ok (bytes.take n, bytes.drop n)

def decodeText : Decoder String := do
  let bytes ← take (← size.decode)
  match String.fromUTF8? ⟨bytes.toArray⟩ with
  | some text => return text
  | none => throw .invalidText

def encodeText (text : String) : Bytes :=
  size.encode text.utf8ByteSize ++ text.toUTF8.data.toList

def text : Codec String := ⟨encodeText, decodeText⟩

def decodeMany {α : Type} (d : Decoder α) : Nat → Decoder (List α)
  | 0 => return []
  | n + 1 => do
    let a ← d
    let rest ← decodeMany d n
    return a :: rest

def decodeList {α : Type} (d : Decoder α) : Decoder (List α) := do decodeMany d (← size.decode)

def list {α : Type} (c : Codec α) : Codec (List α) :=
  ⟨fun xs => size.encode xs.length ++ xs.flatMap c.encode, decodeList c.decode⟩

def decodeOption {α : Type} (d : Decoder α) : Decoder (Option α) := do
  match ← byte with
  | 0 => return none
  | 1 => return some (← d)
  | _ => throw .invalidOption

def option {α : Type} (c : Codec α) : Codec (Option α) where
  encode
    | none => [0]
    | some a => 1 :: c.encode a
  decode := decodeOption c.decode

def pair {α β : Type} (c : Codec α) (d : Codec β) : Codec (α × β) where
  encode p := c.encode p.1 ++ d.encode p.2
  decode := do
    let a ← c.decode
    let b ← d.decode
    return (a, b)

/-- Entries with texts for keys; of entries with the same key the last value counts. -/
def map {α : Type} (c : Codec α) : Codec (OrderedMap String α) :=
  (list (text.pair c)).via OrderedMap.entries OrderedMap.ofList

def case (place : Nat) (payload : Bytes) : Bytes := word.encode place ++ payload

def oneOf {α : Type} [BEq α] (values : List α) : Codec α where
  encode a := case (values.idxOf a) []
  decode := do
    match values[← word.decode]? with
    | some a => return a
    | none => throw .unknownCase

def either {α β : Type} (c : Codec α) (d : Codec β) : Codec (α ⊕ β) where
  encode
    | .inl a => case 0 (c.encode a)
    | .inr b => case 1 (d.encode b)
  decode := do
    match ← word.decode with
    | 0 => return .inl (← c.decode)
    | 1 => return .inr (← d.decode)
    | _ => throw .unknownCase

/-- Reads a value from the front of some bytes and drops what follows. -/
def read {α : Type} (c : Codec α) (bytes : Bytes) : Except Fault α :=
  match c.decode bytes with
  | .ok (a, _) => .ok a
  | .error fault => .error fault

end Codec

end Productions.Wire
