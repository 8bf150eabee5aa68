import Productions.Pattern.Tree

/-! What can be wrong with a pattern, where, and the text that shows it. The text repeats the
pattern with carets under the faulty part; a pattern of several lines is shown with line numbers. -/
namespace Productions.Pattern

/-- Opening and closing, counting and escaping can go wrong while a pattern is read; the last
group of causes concerns what a pattern that could be read would match. -/
inductive Cause where
  | classEscapeInvalid
  | classRangeInvalid
  | classRangeLiteral
  | classUnclosed
  | decimalInvalid
  | escapeHexEmpty
  | escapeHexInvalid
  | escapeHexInvalidDigit
  | escapeUnexpectedEnd
  | escapeUnrecognized
  | flagDanglingNegation
  | flagDuplicate (earlier : Span)
  | flagRepeatedNegation (earlier : Span)
  | flagUnexpectedEnd
  | flagUnrecognized
  | groupNameDuplicate (earlier : Span)
  | groupNameEmpty
  | groupNameInvalid
  | groupNameUnexpectedEnd
  | groupUnclosed
  | groupUnopened
  | nestLimitExceeded (limit : Nat)
  | repetitionCountInvalid
  | repetitionCountDecimalEmpty
  | repetitionCountUnclosed
  | repetitionMissing
  | wordBoundaryUnclosed
  | wordBoundaryUnrecognized
  | wordBoundaryOrRepetitionUnexpectedEnd
  | unicodeClassInvalid
  | unsupportedBackreference
  | unsupportedLookAround
  | unicodeNotAllowed
  | invalidUtf8
  | propertyNotFound
  | propertyValueNotFound
  deriving DecidableEq, Repr

namespace Cause

def message : Cause → String
  | classEscapeInvalid => "invalid escape sequence found in character class"
  | classRangeInvalid => "invalid character class range, the start must be <= the end"
  | classRangeLiteral => "invalid range boundary, must be a literal"
  | classUnclosed => "unclosed character class"
  | decimalInvalid => "decimal literal invalid"
  | escapeHexEmpty => "hexadecimal literal empty"
  | escapeHexInvalid => "hexadecimal literal is not a Unicode scalar value"
  | escapeHexInvalidDigit => "invalid hexadecimal digit"
  | escapeUnexpectedEnd => "incomplete escape sequence, reached end of pattern prematurely"
  | escapeUnrecognized => "unrecognized escape sequence"
  | flagDanglingNegation => "dangling flag negation operator"
  | flagDuplicate _ => "duplicate flag"
  | flagRepeatedNegation _ => "flag negation operator repeated"
  | flagUnexpectedEnd => "expected flag but got end of regex"
  | flagUnrecognized => "unrecognized flag"
  | groupNameDuplicate _ => "duplicate capture group name"
  | groupNameEmpty => "empty capture group name"
  | groupNameInvalid => "invalid capture group character"
  | groupNameUnexpectedEnd => "unclosed capture group name"
  | groupUnclosed => "unclosed group"
  | groupUnopened => "unopened group"
  | nestLimitExceeded limit =>
    "exceed the maximum number of nested parentheses/brackets (" ++ toString limit ++ ")"
  | repetitionCountInvalid =>
    "invalid repetition count range, the start must be <= the end"
  | repetitionCountDecimalEmpty => "repetition quantifier expects a valid decimal"
  | repetitionCountUnclosed => "unclosed counted repetition"
  | repetitionMissing => "repetition operator missing expression"
  | wordBoundaryUnclosed =>
    "special word boundary assertion is either unclosed or contains an invalid character"
  | wordBoundaryUnrecognized =>
    "unrecognized special word boundary assertion, " ++
      "valid choices are: start, end, start-half or end-half"
  | wordBoundaryOrRepetitionUnexpectedEnd =>
    "found either the beginning of a special word boundary or a bounded repetition on a \\b " ++
      "with an opening brace, but no closing brace"
  | unicodeClassInvalid => "invalid Unicode character class"
  | unsupportedBackreference => "backreferences are not supported"
  | unsupportedLookAround =>
    "look-around, including look-ahead and look-behind, is not supported"
  | unicodeNotAllowed => "Unicode not allowed here"
  | invalidUtf8 => "pattern can match invalid UTF-8"
  | propertyNotFound => "Unicode property not found"
  | propertyValueNotFound => "Unicode property value not found"

def earlier? : Cause → Option Span
  | flagDuplicate span | flagRepeatedNegation span | groupNameDuplicate span => some span
  | _ => none

end Cause

structure Fault where
  cause : Cause
  span : Span
  deriving DecidableEq, Repr

def segments : List Char → List (List Char)
  | [] => [[]]
  | c :: cs =>
    if c = '\n' then [] :: segments cs
    else match segments cs with
      | [] => [[c]]
      | line :: rest => (c :: line) :: rest

/-- The lines of a text, each without its line break, which is a line feed and a carriage return
before it. A break at the end opens no further line. -/
def linesOf (text : List Char) : List (List Char) :=
  let parts := segments text
  let closed := parts.dropLast.map fun line =>
    if line.getLast? = some '\r' then line.dropLast else line
  closed ++ (parts.getLast?.toList.filter fun line => !line.isEmpty)

namespace Fault

def spans (fault : Fault) : List Span :=
  match fault.cause.earlier? with
  | none => [fault.span]
  | some other => if fault.span.before other then [fault.span, other] else [other, fault.span]

def carets : Nat → List Span → List Char
  | _, [] => []
  | column, span :: rest =>
    let gap := span.first.column - 1 - column
    let width := max 1 (span.last.column - span.first.column)
    List.replicate gap ' ' ++ List.replicate width '^' ++ carets (column + gap + width) rest

def padLeft (width : Nat) (cs : List Char) : List Char :=
  List.replicate (width - cs.length) ' ' ++ cs

def notes (spans : List Span) (indent number : Nat) : List Char :=
  match spans.filter fun s => s.isOneLine && s.first.line == number with
  | [] => []
  | here => List.replicate indent ' ' ++ carets 0 here ++ ['\n']

def render (fault : Fault) (pattern : String) : String :=
  let text := pattern.toList
  let lines := linesOf text
  let count := lines.length + (if text.getLast? = some '\n' then 1 else 0)
  let width := if count ≤ 1 then 0 else (toString count).length
  let spans := fault.spans
  let shown := (lines.zipIdx 1).flatMap fun (line, number) =>
    let label := if width = 0 then List.replicate 4 ' '
      else padLeft width (toString number).toList ++ [':', ' ']
    label ++ line ++ ['\n'] ++ notes spans (if width = 0 then 4 else width + 2) number
  let rule := List.replicate 79 '~' ++ ['\n']
  let long := (spans.filter fun s => !s.isOneLine).map fun s =>
    "on line " ++ toString s.first.line ++ " (column " ++ toString s.first.column ++
      ") through line " ++ toString s.last.line ++ " (column " ++
      toString (s.last.column - 1) ++ ")\n"
  "regex parse error:\n" ++
    (if text.contains '\n' then
      String.ofList (rule ++ shown ++ rule) ++ String.join long
    else String.ofList shown) ++
    "error: " ++ fault.cause.message

end Fault

end Productions.Pattern
