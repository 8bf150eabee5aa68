import Productions.Pattern.Fault
import Productions.Pattern.Tree
import Productions.Unicode.Property

/-! Moving through the characters of a pattern, and its primitives: a character that stands for
itself, an escape, a class by letter or property, or an assertion. The first fault ends the reading.
In verbose mode blanks and comments between the parts of a pattern are skipped. -/
namespace Productions.Pattern

open Productions.Unicode (isBlank)

/-- What is left to read, where it starts, whether blanks are skipped, and the capture groups
seen so far. -/
structure ReaderState where
  rest : List Char
  position : Position
  verbose : Bool
  captures : Nat
  names : List (String × Span)

abbrev Reader := StateT ReaderState (Except Fault)

namespace Reader

variable {α : Type}

def fail (cause : Cause) (span : Span) : Reader α := throw ⟨cause, span⟩

def position : Reader Position := return (← get).position

def current? : Reader (Option Char) := return (← get).rest.head?

def second? : Reader (Option Char) := return ((← get).rest.drop 1).head?

def atEnd : Reader Bool := return (← get).rest.isEmpty

def here : Reader Span := return Span.here (← get).position

def nextSpan : Reader Span := do
  let s ← get
  match s.rest with
  | [] => return Span.here s.position
  | c :: _ => return ⟨s.position, s.position.after c⟩

def since (first : Position) : Reader Span := return ⟨first, (← get).position⟩

def advance : Reader Bool := do
  let s ← get
  match s.rest with
  | [] => return false
  | c :: cs =>
    set { s with rest := cs, position := s.position.after c }
    return !cs.isEmpty

def advanceBy : Nat → Reader Unit
  | 0 => return
  | n + 1 => do
    let _ ← advance
    advanceBy n

/-- What follows blanks and comments; a comment runs from `#` to the end of its line. -/
def pastBlanks : Bool → List Char → Position → List Char × Position
  | _, [], p => ([], p)
  | true, c :: cs, p => pastBlanks (c ≠ '\n') cs (p.after c)
  | false, c :: cs, p =>
    if isBlank c then pastBlanks false cs (p.after c)
    else if c = '#' then pastBlanks true cs (p.after c)
    else (c :: cs, p)

def skipBlanks : Reader Unit := do
  let s ← get
  if s.verbose then
    let (rest, p) := pastBlanks false s.rest s.position
    set { s with rest := rest, position := p }

def advanceSpaced : Reader Bool := do
  if ← advance then
    skipBlanks
    return !(← atEnd)
  else return false

/-- The character after the next one, blanks skipped. A comment sign is skipped too, but not the
text of the comment. -/
def peekSpaced? : Reader (Option Char) := do
  let s ← get
  let after := s.rest.drop 1
  if s.verbose then
    let past := after.dropWhile isBlank
    let past := match past with
      | '#' :: rest => rest.dropWhile isBlank
      | _ => past
    return past.head? <|> after.head?
  else return after.head?

def collect (accepts : Char → Bool) (step : Reader Bool) : Nat → Reader (List Char)
  | 0 => return []
  | n + 1 => do
    match ← current? with
    | some c =>
      if accepts c then
        let _ ← step
        return c :: (← collect accepts step n)
      else return []
    | none => return []

def collectAll (accepts : Char → Bool) (step : Reader Bool) : Reader (List Char) := do
  collect accepts step (← get).rest.length

end Reader

open Reader

def isHexDigit (c : Char) : Bool :=
  c.isDigit || ('a' ≤ c && c ≤ 'f') || ('A' ≤ c && c ≤ 'F')

def hexDigitValue (c : Char) : Nat :=
  if c.isDigit then c.toNat - '0'.toNat
  else if 'a' ≤ c then c.toNat - 'a'.toNat + 10 else c.toNat - 'A'.toNat + 10

def hexDigitsValue (digits : List Char) : Nat :=
  digits.foldl (fun n c => 16 * n + hexDigitValue c) 0

def scalar? (code : Nat) : Option Char :=
  if h : code.isValidChar then some (Char.ofNatAux code h) else none

def isMeta (c : Char) : Bool :=
  ['\\', '.', '+', '*', '?', '(', ')', '|', '[', ']', '\x7b', '\x7d', '^', '$', '#', '&', '-',
    '~'].contains c

/-- Any ASCII character except letters, digits and angle brackets may be escaped. -/
def isEscapable (c : Char) : Bool :=
  isMeta c || (c.toNat < 0x80 && !c.isAlphanum && c ≠ '<' && c ≠ '>')

inductive Primitive where
  | literal (literal : Literal)
  | assertion (span : Span) (kind : Assertion)
  | dot (span : Span)
  | letter (cls : LetterClass)
  | unicode (cls : UnicodeClass)

namespace Primitive

def span : Primitive → Span
  | literal l => l.span
  | assertion span _ | dot span => span
  | letter cls => cls.span
  | unicode cls => cls.span

def toTree : Primitive → Tree
  | literal l => .literal l
  | assertion span kind => .assertion span kind
  | dot span => .dot span
  | letter cls => .letter cls
  | unicode cls => .unicode cls

def toClassItem : Primitive → Reader ClassItem
  | literal l => return .literal l
  | letter cls => return .letter cls
  | unicode cls => return .unicode cls
  | p => fail .classEscapeInvalid p.span

def toLiteral : Primitive → Reader Literal
  | literal l => return l
  | p => fail .classRangeLiteral p.span

end Primitive

def readHexDigits : Nat → Reader (List Char)
  | 0 => return []
  | n + 1 => do
    match ← current? with
    | none => return []
    | some c =>
      if isHexDigit c then
        if n = 0 then return [c]
        else if ← advanceSpaced then return c :: (← readHexDigits n)
        else fail .escapeUnexpectedEnd (← here)
      else fail .escapeHexInvalidDigit (← nextSpan)

def readBracedHexDigits : Nat → Reader (List Char)
  | 0 => return []
  | n + 1 => do
    if ← advanceSpaced then
      match ← current? with
      | some '\x7d' => return []
      | some c =>
        if isHexDigit c then return c :: (← readBracedHexDigits n)
        else fail .escapeHexInvalidDigit (← nextSpan)
      | none => return []
    else return []

/-- An escape by code point: `x` with two digits, `u` with four, `U` with eight, or any of them
with digits between braces. -/
def readHex (start : Position) (kind : Char) : Reader Literal := do
  if !(← advanceSpaced) then fail .escapeUnexpectedEnd (← here)
  if (← current?) = some '\x7b' then
    let brace ← position
    let first := (← nextSpan).last
    let digits ← readBracedHexDigits (← get).rest.length
    if ← atEnd then fail .escapeUnexpectedEnd (← since brace)
    let last ← position
    let _ ← advanceSpaced
    if digits.isEmpty then fail .escapeHexEmpty (← since brace)
    match scalar? (hexDigitsValue digits) with
    | some c => return ⟨← since start, c, false⟩
    | none => fail .escapeHexInvalid ⟨first, last⟩
  else
    let first ← position
    let width := if kind = 'x' then 2 else if kind = 'u' then 4 else 8
    let digits ← readHexDigits width
    let _ ← advanceSpaced
    match scalar? (hexDigitsValue digits) with
    | some c => return ⟨← since start, c, kind = 'x'⟩
    | none => fail .escapeHexInvalid (← since first)

def splitAt? (mark : List Char) : List Char → Option (List Char × List Char)
  | [] => none
  | c :: cs =>
    if mark.isPrefixOf (c :: cs) then some ([], (c :: cs).drop mark.length)
    else (splitAt? mark cs).map fun r => (c :: r.1, r.2)

/-- A name, or a property and its value. A sign of inequality parts them like one of equality: only
the letter of the escape turns a class around. -/
def queryOf (name : List Char) : UnicodeQuery :=
  match splitAt? ['!', '='] name, splitAt? [':'] name, splitAt? ['='] name with
  | some (p, v), _, _ | none, some (p, v), _ | none, none, some (p, v) =>
    .valued (String.ofList p) (String.ofList v)
  | none, none, none => .named (String.ofList name)

def readUnicodeClass (start : Position) (negated : Bool) : Reader UnicodeClass := do
  if !(← advanceSpaced) then fail .escapeUnexpectedEnd (← here)
  match ← current? with
  | some '\x7b' =>
    let _ ← advanceSpaced
    let name ← collectAll (· ≠ '\x7d') advanceSpaced
    if ← atEnd then fail .escapeUnexpectedEnd (← here)
    let _ ← advance
    return ⟨← since start, negated, queryOf name⟩
  | some c =>
    if c = '\\' then fail .unicodeClassInvalid (← nextSpan)
    let _ ← advanceSpaced
    return ⟨← since start, negated, .named (String.singleton c)⟩
  | none => fail .escapeUnexpectedEnd (← here)

def isBoundaryChar (c : Char) : Bool := c.isAlpha || c = '-'

/-- The name in braces after `\b`, if there is one; otherwise the brace is left for a repetition
to read. -/
def readBoundaryName (start : Position) : Reader (Option Assertion) := do
  let before ← get
  if !(← advanceSpaced) then
    fail .wordBoundaryOrRepetitionUnexpectedEnd (← since start)
  let first ← position
  if !((← current?).any isBoundaryChar) then
    set before
    return none
  let name ← collectAll isBoundaryChar advanceSpaced
  if (← current?) ≠ some '\x7d' then
    fail .wordBoundaryUnclosed (← since before.position)
  let span ← since first
  let _ ← advance
  match String.ofList name with
  | "start" => return some .wordStart
  | "end" => return some .wordEnd
  | "start-half" => return some .wordStartHalf
  | "end-half" => return some .wordEndHalf
  | _ => fail .wordBoundaryUnrecognized span

def readEscape : Reader Primitive := do
  let start ← position
  if !(← advance) then fail .escapeUnexpectedEnd (← since start)
  let c := (← current?).getD '\\'
  if c.isDigit then fail .unsupportedBackreference ⟨start, (← nextSpan).last⟩
  if c = 'x' || c = 'u' || c = 'U' then return .literal (← readHex start c)
  if c = 'p' || c = 'P' then return .unicode (← readUnicodeClass start (c = 'P'))
  let _ ← advance
  let span ← since start
  let char (c : Char) : Primitive := .literal ⟨span, c, false⟩
  let letter (kind : PerlClass) (negated : Bool) : Primitive := .letter ⟨span, kind, negated⟩
  if isEscapable c then return char c
  match c with
  | 'd' => return letter .digit false
  | 'D' => return letter .digit true
  | 's' => return letter .space false
  | 'S' => return letter .space true
  | 'w' => return letter .word false
  | 'W' => return letter .word true
  | 'a' => return char '\x07'
  | 'f' => return char '\x0C'
  | 't' => return char '\t'
  | 'n' => return char '\n'
  | 'r' => return char '\r'
  | 'v' => return char '\x0B'
  | 'A' => return .assertion span .startText
  | 'z' => return .assertion span .endText
  | 'b' =>
    if (← current?) = some '\x7b' then
      match ← readBoundaryName start with
      | some kind => return .assertion (← since start) kind
      | none => return .assertion span .wordBoundary
    else return .assertion span .wordBoundary
  | 'B' => return .assertion span .notWordBoundary
  | '<' => return .assertion span .wordStartAngle
  | '>' => return .assertion span .wordEndAngle
  | _ => fail .escapeUnrecognized span

def readPrimitive : Reader Primitive := do
  let span ← nextSpan
  match ← current? with
  | some '\\' => readEscape
  | some '.' => do let _ ← advance; return .dot span
  | some '^' => do let _ ← advance; return .assertion span .startLine
  | some '$' => do let _ ← advance; return .assertion span .endLine
  | some c => do let _ ← advance; return .literal ⟨span, c, false⟩
  | none => fail .escapeUnexpectedEnd span

end Productions.Pattern
