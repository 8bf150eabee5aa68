import Mathlib.Algebra.Group.Int.Defs
import Mathlib.Algebra.Group.Nat.Defs
import Mathlib.Tactic.Common
import Productions.Json.Reader

/-! The texts of JSON values. A value is a tree with the members of an object in their order, and it
has many texts: there may be blanks between all parts, characters of strings may be escaped, and
numbers may be written with fractions and exponents. -/
namespace Productions.Json

def Blanks (text : List Char) : Prop := ∀ c ∈ text, c = ' ' ∨ c = '\n' ∨ c = '\t' ∨ c = '\r'

def IsHex (c : Char) (value : ℕ) : Prop :=
  "0123456789abcdef".toList[value]? = some c ∨ "0123456789ABCDEF".toList[value]? = some c

inductive HexUnit : List Char → ℕ → Prop where
  | digits {a b c d x y z w} (first : IsHex a x) (second : IsHex b y) (third : IsHex c z)
      (fourth : IsHex d w) : HexUnit [a, b, c, d] (0x1000 * x + 0x100 * y + 0x10 * z + w)

def shortEscapes : List (Char × Char) :=
  [('"', '"'), ('\\', '\\'), ('/', '/'), ('b', '\x08'), ('f', '\x0C'), ('n', '\n'), ('r', '\r'),
    ('t', '\t')]

/-- The texts of some characters within quotes. Beyond 16 bits an escape takes two surrogates. A
surrogate that stands alone is no character; a text of a string that is only passed over may hold
it all the same, in place of the replacement character. -/
inductive Spells (strict : Bool) : List Char → List Char → Prop where
  | nil : Spells strict [] []
  | plain {c cs text} (quote : c ≠ '"') (escape : c ≠ '\\') (control : 0x20 ≤ c.toNat)
      (rest : Spells strict cs text) : Spells strict (c :: cs) (c :: text)
  | short {e c cs text} (known : (e, c) ∈ shortEscapes) (rest : Spells strict cs text) :
      Spells strict (c :: cs) ('\\' :: e :: text)
  | unit {digits value cs text} (hex : HexUnit digits value)
      (single : value < 0xD800 ∨ 0xDFFF < value) (rest : Spells strict cs text) :
      Spells strict (Char.ofNat value :: cs) ('\\' :: 'u' :: (digits ++ text))
  | pair {digits lead digits' trail cs text} (hex : HexUnit digits (0xD800 + lead))
      (hex' : HexUnit digits' (0xDC00 + trail)) (high : lead < 0x400) (low : trail < 0x400)
      (rest : Spells strict cs text) :
      Spells strict (Char.ofNat (0x10000 + 0x400 * lead + trail) :: cs)
        ('\\' :: 'u' :: (digits ++ '\\' :: 'u' :: (digits' ++ text)))
  | alone {digits value cs text} (hex : HexUnit digits value) (loose : strict = false)
      (surrogate : 0xD800 ≤ value ∧ value ≤ 0xDFFF) (rest : Spells strict cs text) :
      Spells strict (Char.ofNat 0xFFFD :: cs) ('\\' :: 'u' :: (digits ++ text))

inductive Quotes (strict : Bool) (s : String) : List Char → Prop where
  | quoted {text} (spells : Spells strict s.toList text) :
      Quotes strict s ('"' :: (text ++ ['"']))

theorem Spells.of_plain {strict : Bool} {cs : List Char}
    (plain : ∀ c ∈ cs, c ≠ '"' ∧ c ≠ '\\' ∧ 0x20 ≤ c.toNat) : Spells strict cs cs := by
  induction cs with
  | nil => exact .nil
  | cons c cs ih =>
    obtain ⟨quote, escape, control⟩ := plain c List.mem_cons_self
    exact .plain quote escape control (ih fun d hd => plain d (List.mem_cons_of_mem c hd))

structure IsTail (digits : List Char) : Prop where
  all : ∀ c ∈ digits, Reader.isDigit c = true
  nonempty : digits ≠ []

structure IsWhole (digits : List Char) : Prop extends IsTail digits where
  zero : digits.head? = some '0' → digits = ['0']

inductive Fraction : Option (List Char) → List Char → Prop where
  | absent : Fraction none []
  | present {digits} (tail : IsTail digits) : Fraction (some digits) ('.' :: digits)

inductive Sign : Bool → List Char → Prop where
  | none : Sign false []
  | plus : Sign false ['+']
  | minus : Sign true ['-']

inductive Power : Option Int → List Char → Prop where
  | absent : Power none []
  | present {mark negative sign digits} (known : mark = 'e' ∨ mark = 'E')
      (signed : Sign negative sign) (tail : IsTail digits) :
      Power (some (if negative then -(digitsValue digits) else digitsValue digits))
        (mark :: (sign ++ digits))

def signText (negative : Bool) : List Char := if negative then ['-'] else []

/-- The texts of whole numbers of 64 bits. Zero has no sign. -/
inductive Integer : Int → List Char → Prop where
  | natural {digits} (whole : IsWhole digits) (small : digitsValue digits < 2 ^ 64) :
      Integer (digitsValue digits) digits
  | negative {digits} (whole : IsWhole digits) (sign : 0 < digitsValue digits)
      (small : digitsValue digits ≤ 2 ^ 63) :
      Integer (-(digitsValue digits)) ('-' :: digits)

/-- The texts of floating-point numbers: all that are not whole numbers of 64 bits. A number that
is too large has no value; where it is only passed over it is taken for an infinite one. -/
inductive Floating (strict : Bool) : Float → List Char → Prop where
  | number {negative whole fraction power after exponent} (digits : IsWhole whole)
      (point : Fraction fraction after) (scale : Power power exponent)
      (fractional : fraction = none → power = none → Reader.integer? negative whole = none)
      (small : strict → (float? negative whole (fraction.getD []) (power.getD 0)).isSome) :
      Floating strict ((float? negative whole (fraction.getD []) (power.getD 0)).getD (1 / 0))
        (signText negative ++ (whole ++ (after ++ exponent)))

inductive Gap : Bool → List Char → Prop where
  | start {blanks} (h : Blanks blanks) : Gap true blanks
  | comma {before after} (h : Blanks before) (h' : Blanks after) :
      Gap false (before ++ ',' :: after)

inductive Listed {α : Type} (item : α → List Char → Prop) : Bool → List α → List Char → Prop where
  | nil {first} : Listed item first [] []
  | cons {first a as gap text more} (before : Gap first gap) (head : item a text)
      (tail : Listed item false as more) : Listed item first (a :: as) (gap ++ (text ++ more))

inductive Member {α : Type} (strict : Bool) (value : String × α → List Char → Prop) :
    String × α → List Char → Prop where
  | pair {key a name before after text} (quotes : Quotes strict key name) (left : Blanks before)
      (right : Blanks after) (h : value (key, a) text) :
      Member strict value (key, a) (name ++ (before ++ ':' :: (after ++ text)))

/-- The texts of a value, without blanks around it. Loose texts are all that are well-formed;
strict ones also have all numbers in the range of their type and all surrogates in pairs. -/
inductive Prints (strict : Bool) : Content → List Char → Prop where
  | null : Prints strict .null ['n', 'u', 'l', 'l']
  | true : Prints strict (.bool true) ['t', 'r', 'u', 'e']
  | false : Prints strict (.bool false) ['f', 'a', 'l', 's', 'e']
  | integer {n text} (h : Integer n text) : Prints strict (.integer n) text
  | float {f text} (h : Floating strict f text) : Prints strict (.float f) text
  | string {s text} (h : Quotes strict s text) : Prints strict (.string s) text
  | array {items text blanks} (h : Listed (Prints strict) true items text)
      (before : Blanks blanks) : Prints strict (.array items) ('[' :: (text ++ (blanks ++ [']'])))
  | object {members text blanks}
      (h : Listed (Member strict fun m => Prints strict m.2) true members text)
      (before : Blanks blanks) :
      Prints strict (.object members) ('\x7b' :: (text ++ (blanks ++ ['\x7d'])))

def NestsWithin : (depth : ℕ) → Content → Prop
  | 0, .array _ | 0, .object _ => False
  | depth + 1, .array items => ∀ c ∈ items, NestsWithin depth c
  | depth + 1, .object members => ∀ m ∈ members, NestsWithin depth m.2
  | _, .null | _, .bool _ | _, .integer _ | _, .float _ | _, .string _ => True

end Productions.Json
