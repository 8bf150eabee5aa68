/-! Patterns as they are written. Every node of the tree keeps the span it was read from, up to but
not including the position where it ends. Positions count characters from the start, and lines and
columns from one. -/
namespace Productions.Pattern

structure Position where
  offset : Nat
  line : Nat
  column : Nat
  deriving DecidableEq, Repr

namespace Position

def start : Position := ⟨0, 1, 1⟩

instance : Inhabited Position := ⟨start⟩

def after (p : Position) (c : Char) : Position :=
  if c = '\n' then ⟨p.offset + 1, p.line + 1, 1⟩ else ⟨p.offset + 1, p.line, p.column + 1⟩

end Position

structure Span where
  first : Position
  last : Position
  deriving DecidableEq, Repr, Inhabited

namespace Span

def here (p : Position) : Span := ⟨p, p⟩

def isOneLine (s : Span) : Bool := s.first.line == s.last.line

def before (s t : Span) : Bool :=
  s.first.offset < t.first.offset ||
    (s.first.offset == t.first.offset && s.last.offset ≤ t.last.offset)

end Span

inductive Flag where
  | caseInsensitive
  | multiLine
  | dotMatchesNewLine
  | swapGreed
  | unicode
  | crlf
  | ignoreWhitespace
  deriving DecidableEq, Repr

/-- One sign in a list of flags: a flag, or the hyphen after which flags are switched off. -/
inductive FlagSign where
  | negation
  | flag (flag : Flag)
  deriving DecidableEq, Repr

def flagState (signs : List FlagSign) (flag : Flag) : Option Bool :=
  if (signs.takeWhile (· ≠ .negation)).contains (.flag flag) then some true
  else if signs.contains (.flag flag) then some false
  else none

inductive Assertion where
  | startLine
  | endLine
  | startText
  | endText
  | wordBoundary
  | notWordBoundary
  | wordStart
  | wordEnd
  | wordStartAngle
  | wordEndAngle
  | wordStartHalf
  | wordEndHalf
  deriving DecidableEq, Repr

inductive PerlClass where
  | digit
  | space
  | word
  deriving DecidableEq, Repr

inductive AsciiClass where
  | alnum
  | alpha
  | ascii
  | blank
  | cntrl
  | digit
  | graph
  | lower
  | print
  | punct
  | space
  | upper
  | word
  | xdigit
  deriving DecidableEq, Repr

inductive UnicodeQuery where
  | named (name : String)
  | valued (property value : String)
  deriving DecidableEq, Repr

/-- A character. One written as a backslash, `x` and two digits may stand for a byte. -/
structure Literal where
  span : Span
  char : Char
  fromByteEscape : Bool
  deriving DecidableEq, Repr

structure UnicodeClass where
  span : Span
  negated : Bool
  query : UnicodeQuery
  deriving DecidableEq, Repr

structure LetterClass where
  span : Span
  kind : PerlClass
  negated : Bool
  deriving DecidableEq, Repr

inductive SetOp where
  | intersection
  | difference
  | symmetricDifference
  deriving DecidableEq, Repr

inductive ClassItem where
  | empty (span : Span)
  | literal (literal : Literal)
  | range (span : Span) (first last : Literal)
  | ascii (span : Span) (kind : AsciiClass) (negated : Bool)
  | unicode (cls : UnicodeClass)
  | letter (cls : LetterClass)
  | bracketed (span : Span) (negated : Bool) (content : ClassItem)
  | union (span : Span) (items : List ClassItem)
  | op (span : Span) (kind : SetOp) (left right : ClassItem)
  deriving Inhabited

def ClassItem.span : ClassItem → Span
  | .empty span | .range span _ _ | .ascii span _ _ | .bracketed span _ _ | .union span _
  | .op span _ _ _ => span
  | .literal l => l.span
  | .unicode c => c.span
  | .letter c => c.span

structure Count where
  least : Nat
  most : Option Nat
  deriving DecidableEq, Repr

inductive GroupKind where
  | capture (index : Nat)
  | named (index : Nat) (name : String)
  | plain (flags : List FlagSign)
  deriving DecidableEq, Repr

inductive Tree where
  | empty (span : Span)
  | flags (span : Span) (signs : List FlagSign)
  | literal (literal : Literal)
  | dot (span : Span)
  | assertion (span : Span) (kind : Assertion)
  | unicode (cls : UnicodeClass)
  | letter (cls : LetterClass)
  | bracketed (span : Span) (negated : Bool) (content : ClassItem)
  | repetition (span : Span) (count : Count) (greedy : Bool) (content : Tree)
  | group (span : Span) (kind : GroupKind) (content : Tree)
  | alternation (span : Span) (branches : List Tree)
  | concat (span : Span) (items : List Tree)
  deriving Inhabited

def Tree.span : Tree → Span
  | .empty span | .flags span _ | .dot span | .assertion span _ | .bracketed span _ _
  | .repetition span _ _ _ | .group span _ _ | .alternation span _ | .concat span _ => span
  | .literal l => l.span
  | .unicode c => c.span
  | .letter c => c.span

end Productions.Pattern
