import Productions.Unicode.Binary

/-! How text and floating-point numbers are written. In quoted text every character can be told
apart: control, format, unassigned, private-use and separator characters and marks that extend the
character before them are shown by their number. A number is written by the shortest decimal that
rounds to it, and of several of that length by the nearest; all comparisons are made in natural
numbers. -/
namespace Productions.Text

/-- Code points shown by their number; the blank is the one separator shown as it is. -/
def numberedCodes : Unicode.CodeSet :=
  ((Unicode.Binary.categories ["Control", "Format", "Unassigned", "Private_Use",
    "Line_Separator", "Paragraph_Separator", "Space_Separator"]).difference .scalars
      (Unicode.CodeSet.ofCodes [0x20])).union Unicode.Binary.graphemeExtend

def isNumbered (c : Char) : Bool :=
  if 0x20 ≤ c.toNat && c.toNat < 0x7F then false else numberedCodes.contains c.toNat

def quotedChar (c : Char) : List Char :=
  match c with
  | '"' => ['\\', '"']
  | '\\' => ['\\', '\\']
  | '\n' => ['\\', 'n']
  | '\r' => ['\\', 'r']
  | '\t' => ['\\', 't']
  | '\x00' => ['\\', '0']
  | _ =>
    if isNumbered c then ['\\', 'u', '\x7b'] ++ Nat.toDigits 16 c.toNat ++ ['\x7d']
    else [c]

def quoted (text : String) : String :=
  "\"" ++ String.ofList (text.toList.flatMap quotedChar) ++ "\""

end Productions.Text

namespace Productions.Decimal

structure Scaled where
  digits : Nat
  exponent : Int
  deriving DecidableEq, Repr

structure Binary where
  negative : Bool
  significand : Nat
  exponent : Int
  deriving DecidableEq, Repr

def leadingBit : Nat := 0x10000000000000

/-- The parts of a finite number from its 64 bits: 52 bits of fraction below 11 bits of exponent
below the sign. -/
def Binary.ofBits (bits : Nat) : Binary :=
  let fraction := bits % leadingBit
  let biased : Nat := bits / leadingBit % 2048
  let negative : Bool := bits / 0x8000000000000000 % 2 = 1
  if biased = 0 then ⟨negative, fraction, -1074⟩
  else ⟨negative, leadingBit + fraction, (biased : Int) - 1075⟩

def power (base : Nat) (exponent : Int) : Nat × Nat :=
  if 0 ≤ exponent then (base.pow exponent.toNat, 1) else (1, base.pow (-exponent).toNat)

/-- The reals that round to a number, in quarters of its last place: the ends belong to it exactly
if the significand is even. Below a power of two the lower half is half as wide. -/
structure Interval where
  low : Nat
  value : Nat
  high : Nat
  closed : Bool

def Interval.of (b : Binary) : Interval :=
  let m := b.significand
  let narrow := m = leadingBit && b.exponent ≠ -1074
  ⟨if narrow then 4 * m - 1 else 4 * m - 2, 4 * m, 4 * m + 2, m % 2 = 0⟩

def Interval.holds (i : Interval) (x y : Nat) : Bool :=
  if i.closed then i.low * y ≤ x && x ≤ i.high * y else i.low * y < x && x < i.high * y

/-- The grid point of step `10 ^ k` to take for a number, if one lies in its interval. -/
def onGrid? (b : Binary) (k : Int) : Option Scaled :=
  let i := Interval.of b
  let unit := power 2 (b.exponent - 2)
  let step := power 10 k
  let scale := step.1 * unit.2
  let y := step.2 * unit.1
  let d := i.value * y / scale
  let below := i.holds (d * scale) y
  let above := i.holds ((d + 1) * scale) y
  let down := i.value * y - d * scale
  let up := (d + 1) * scale - i.value * y
  let upper := if below && above then up < down || (up = down && d % 2 = 1) else above
  if upper then some ⟨d + 1, k⟩ else if below && d ≠ 0 then some ⟨d, k⟩ else none

def search (b : Binary) : (steps : Nat) → (k : Int) → Scaled
  | 0, k => ⟨0, k⟩
  | steps + 1, k =>
    match onGrid? b k with
    | some d => d
    | none => search b steps (k - 1)

def trim : (fuel : Nat) → Scaled → Scaled
  | 0, d => d
  | fuel + 1, d =>
    if d.digits ≠ 0 && d.digits % 10 = 0 then trim fuel ⟨d.digits / 10, d.exponent + 1⟩ else d

/-- The shortest decimal of a number other than zero. No number reaches 10³⁰⁹, and the least one
is above 10⁻³²⁴. -/
def shortest (b : Binary) : Scaled := trim 20 (search b 640 309)

end Productions.Decimal
