import Productions.Pattern.Escape
import Productions.Pattern.Fault
import Productions.Pattern.Tree
import Productions.Unicode.Property

/-! From the characters of a pattern to its tree. Alternatives are read together with the groups
inside them; repetitions apply to the expression before them. A parenthesis opens a group or sets
flags for what follows. Between brackets, operators join all that stands before them with all that
stands after. A tree may be nested only so deep. -/
namespace Productions.Pattern

def nestLimit : Nat := 250

def nested (depth : Nat) (span : Span) : Except Fault Nat :=
  if depth < nestLimit then .ok (depth + 1) else .error ⟨.nestLimitExceeded nestLimit, span⟩

mutual

def ClassItem.checkNesting (depth : Nat) : ClassItem → Except Fault Unit
  | .empty _ | .literal _ | .range _ _ _ | .ascii _ _ _ | .unicode _ | .letter _ => .ok ()
  | .bracketed span _ content => do content.checkNesting (← nested depth span)
  | .union span items => do ClassItem.checkNestingAll (← nested depth span) items
  | .op span _ left right => do
    let depth ← nested depth span
    left.checkNesting depth
    right.checkNesting depth

def ClassItem.checkNestingAll (depth : Nat) : List ClassItem → Except Fault Unit
  | [] => .ok ()
  | item :: items => do
    item.checkNesting depth
    ClassItem.checkNestingAll depth items

end

mutual

/-- The first node, from the outside and from the left, that lies too deep. -/
def Tree.checkNesting (depth : Nat) : Tree → Except Fault Unit
  | .empty _ | .flags _ _ | .literal _ | .dot _ | .assertion _ _ | .unicode _ | .letter _ =>
    .ok ()
  | .bracketed span _ content => do content.checkNesting (← nested depth span)
  | .repetition span _ _ content | .group span _ content => do
    content.checkNesting (← nested depth span)
  | .alternation span items | .concat span items => do
    Tree.checkNestingAll (← nested depth span) items

def Tree.checkNestingAll (depth : Nat) : List Tree → Except Fault Unit
  | [] => .ok ()
  | item :: items => do
    item.checkNesting depth
    Tree.checkNestingAll depth items

end

open Reader
open Productions.Unicode (isAlphabetic isAlphanumeric)

inductive Opening where
  | flags (span : Span) (signs : List FlagSign)
  | group (span : Span) (kind : GroupKind)

def isCaptureChar (first : Bool) (c : Char) : Bool :=
  if first then c = '_' || isAlphabetic c
  else c = '_' || c = '.' || c = '[' || c = ']' || isAlphanumeric c

def readNameChars : Nat → Bool → Reader (List Char)
  | 0, _ => return []
  | n + 1, first => do
    match ← current? with
    | none | some '>' => return []
    | some c =>
      if isCaptureChar first c then
        let _ ← advance
        return c :: (← readNameChars n false)
      else fail .groupNameInvalid (← nextSpan)

def readGroupName : Reader String := do
  let start ← position
  let chars ← readNameChars (← get).rest.length true
  let span ← since start
  if ← atEnd then fail .groupNameUnexpectedEnd (← here)
  let _ ← advance
  if chars.isEmpty then fail .groupNameEmpty (Span.here start)
  let name := String.ofList chars
  match (← get).names.lookup name with
  | some earlier => fail (.groupNameDuplicate earlier) span
  | none =>
    modify fun s => { s with names := (name, span) :: s.names }
    return name

def flagOf? : Char → Option Flag
  | 'i' => some .caseInsensitive
  | 'm' => some .multiLine
  | 's' => some .dotMatchesNewLine
  | 'U' => some .swapGreed
  | 'u' => some .unicode
  | 'R' => some .crlf
  | 'x' => some .ignoreWhitespace
  | _ => none

def readFlagSigns : Nat → List (FlagSign × Span) → Reader (List FlagSign)
  | 0, signs => return signs.map Prod.fst
  | n + 1, signs => do
    let span ← nextSpan
    match ← current? with
    | none => fail .flagUnexpectedEnd (← here)
    | some ':' | some ')' =>
      match signs.getLast? with
      | some (.negation, last) => fail .flagDanglingNegation last
      | _ => return signs.map Prod.fst
    | some c =>
      let sign ← if c = '-' then pure FlagSign.negation else
        match flagOf? c with
        | some flag => pure (FlagSign.flag flag)
        | none => fail .flagUnrecognized span
      match signs.lookup sign with
      | some earlier =>
        fail (if sign = .negation then .flagRepeatedNegation earlier
          else .flagDuplicate earlier) span
      | none =>
        let _ ← advance
        readFlagSigns n (signs ++ [(sign, span)])

def nextCapture : Reader Nat := do
  modify fun s => { s with captures := s.captures + 1 }
  return (← get).captures

def lookAroundSigns : List (List Char) :=
  [['?', '='], ['?', '!'], ['?', '<', '='], ['?', '<', '!']]

def readOpening : Reader Opening := do
  let span ← nextSpan
  let _ ← advance
  skipBlanks
  let rest := (← get).rest
  match lookAroundSigns.find? (·.isPrefixOf rest) with
  | some sign =>
    advanceBy sign.length
    fail .unsupportedLookAround (← since span.first)
  | none =>
    let inner ← here
    if ['?', 'P', '<'].isPrefixOf rest || ['?', '<'].isPrefixOf rest then
      advanceBy (if ['?', '<'].isPrefixOf rest then 2 else 3)
      let index ← nextCapture
      return .group span (.named index (← readGroupName))
    else if rest.head? = some '?' then
      let _ ← advance
      if ← atEnd then fail .groupUnclosed span
      let signs ← readFlagSigns ((← get).rest.length + 1) []
      let closing ← current?
      let _ ← advance
      if closing = some ')' then
        if signs.isEmpty then fail .repetitionMissing inner
        return .flags (← since span.first) signs
      else return .group span (.plain signs)
    else return .group span (.capture (← nextCapture))

namespace AsciiClass

def names : List (String × AsciiClass) := [
  ("alnum", alnum), ("alpha", alpha), ("ascii", ascii), ("blank", blank), ("cntrl", cntrl),
  ("digit", digit), ("graph", graph), ("lower", lower), ("print", print), ("punct", punct),
  ("space", space), ("upper", upper), ("word", word), ("xdigit", xdigit)]

def ofChars? (cs : List Char) : Option (AsciiClass × Bool × Nat) :=
  match cs with
  | '[' :: ':' :: rest =>
    let negated := rest.head? = some '^'
    let body := if negated then rest.drop 1 else rest
    let name := body.takeWhile (· ≠ ':')
    match body.dropWhile (· ≠ ':') with
    | ':' :: ']' :: _ =>
      (names.lookup (String.ofList name)).map fun kind =>
        (kind, negated, name.length + (if negated then 5 else 4))
    | _ => none
  | _ => none

end AsciiClass

structure UnionSoFar where
  span : Span
  items : List ClassItem

namespace UnionSoFar

def push (u : UnionSoFar) (item : ClassItem) : UnionSoFar :=
  ⟨⟨if u.items.isEmpty then item.span.first else u.span.first, item.span.last⟩, item :: u.items⟩

def close (u : UnionSoFar) : ClassItem :=
  match u.items with
  | [] => .empty u.span
  | [item] => item
  | items => .union u.span items.reverse

end UnionSoFar

def readLeadingHyphens (start : Position) : Nat → UnionSoFar → Reader UnionSoFar
  | 0, u => return u
  | n + 1, u => do
    if (← current?) = some '-' then
      let u := u.push (.literal ⟨← nextSpan, '-', false⟩)
      if !(← advanceSpaced) then fail .classUnclosed (Span.here start)
      readLeadingHyphens start n u
    else return u

/-- The opening of a class: its bracket, the sign of negation, hyphens, and a closing bracket that
stands for itself because it comes first. -/
def readClassOpening : Reader (Bool × UnionSoFar) := do
  let start ← position
  if !(← advanceSpaced) then fail .classUnclosed (← since start)
  let negated := (← current?) = some '^'
  if negated then
    if !(← advanceSpaced) then fail .classUnclosed (← since start)
  let u ← readLeadingHyphens start (← get).rest.length ⟨← here, []⟩
  if u.items.isEmpty && (← current?) = some ']' then
    let u := u.push (.literal ⟨← nextSpan, ']', false⟩)
    if !(← advanceSpaced) then fail .classUnclosed (← since start)
    return (negated, u)
  return (negated, u)

def readClassPrimitive : Reader Primitive := do
  match ← current? with
  | some '\\' => readEscape
  | some c => do
    let span ← nextSpan
    let _ ← advance
    return .literal ⟨span, c, false⟩
  | none => fail .escapeUnexpectedEnd (← here)

/-- A single member of a class, or a range of characters. A hyphen before the closing bracket or
before another hyphen makes no range. -/
def readClassRange (opening : Span) : Reader ClassItem := do
  let first ← readClassPrimitive
  skipBlanks
  if ← atEnd then fail .classUnclosed opening
  let after ← peekSpaced?
  if (← current?) ≠ some '-' || after = some ']' || after = some '-' then first.toClassItem
  else
    if !(← advanceSpaced) then fail .classUnclosed opening
    let last ← readClassPrimitive
    let span : Span := ⟨first.span.first, last.span.last⟩
    let low ← first.toLiteral
    let high ← last.toLiteral
    if low.char ≤ high.char then return .range span low high
    else fail .classRangeInvalid span

def applyOp : Option (SetOp × ClassItem) → ClassItem → ClassItem
  | none, item => item
  | some (kind, left), right => .op ⟨left.span.first, right.span.last⟩ kind left right

def setOpAt? (c d : Option Char) : Option SetOp :=
  if c = some '&' && d = some '&' then some .intersection
  else if c = some '-' && d = some '-' then some .difference
  else if c = some '~' && d = some '~' then some .symmetricDifference
  else none

/-- The members of a class up to its closing bracket. `opening` is the span of what opened it and
`left` the operand before the last operator. Each step reads a character, so that the length of
the rest bounds their number. -/
def readClassItems : Nat → Span → Bool → Option (SetOp × ClassItem) → UnionSoFar →
    Reader ClassItem
  | 0, opening, _, _, _ => fail .classUnclosed opening
  | n + 1, opening, negated, left, u => do
    skipBlanks
    let c ← current?
    let d ← second?
    match c with
    | none => fail .classUnclosed opening
    | some '[' =>
      match AsciiClass.ofChars? (← get).rest with
      | some (kind, inverted, length) =>
        let start ← position
        advanceBy length
        readClassItems n opening negated left (u.push (.ascii (← since start) kind inverted))
      | none =>
        let start ← position
        let (inverted, inner) ← readClassOpening
        let item ← readClassItems n (← since start) inverted none inner
        readClassItems n opening negated left (u.push item)
    | some ']' =>
      let content := applyOp left u.close
      let _ ← advance
      return .bracketed (← since opening.first) negated content
    | _ =>
      match setOpAt? c d with
      | some kind =>
        let operand := applyOp left u.close
        advanceBy 2
        readClassItems n opening negated (some (kind, operand)) ⟨← here, []⟩
      | none =>
        let item ← readClassRange opening
        readClassItems n opening negated left (u.push item)

def readClass : Reader Tree := do
  let start ← position
  let (negated, u) ← readClassOpening
  let item ← readClassItems ((← get).rest.length + 1) (← since start) negated none u
  match item with
  | .bracketed span negated content => return .bracketed span negated content
  | item => return .bracketed item.span false item

open Productions.Unicode (isBlank)

def decimalValue (digits : List Char) : Nat :=
  digits.foldl (fun n c => 10 * n + (c.toNat - '0'.toNat)) 0

/-- A decimal number below 2^32 between blanks; a fault is an answer here, since another fault may
come before it. -/
def readDecimal : Reader (Except Fault Nat) := do
  let _ ← collectAll isBlank advance
  let first ← position
  let digits ← collectAll (fun c => '0' ≤ c && c ≤ '9') advanceSpaced
  let span ← since first
  let _ ← collectAll isBlank advanceSpaced
  if digits.isEmpty then return .error ⟨.repetitionCountDecimalEmpty, span⟩
  else if decimalValue digits < UInt32.size then return .ok (decimalValue digits)
  else return .error ⟨.decimalInvalid, span⟩

def repeatable (span : Span) : List Tree → Reader (Tree × List Tree)
  | [] | .empty _ :: _ | .flags _ _ :: _ => fail .repetitionMissing span
  | item :: items => return (item, items)

def readSimpleRepetition (count : Count) (items : List Tree) : Reader (List Tree) := do
  let (item, items) ← repeatable (← nextSpan) items
  let _ ← advance
  let lazy := (← current?) = some '?'
  if lazy then let _ ← advance
  return .repetition (← since item.span.first) count (!lazy) item :: items

def readCountedRepetition (items : List Tree) : Reader (List Tree) := do
  let start ← position
  let (item, items) ← repeatable (← nextSpan) items
  if !(← advanceSpaced) then fail .repetitionCountUnclosed (← since start)
  let least ← readDecimal
  if ← atEnd then fail .repetitionCountUnclosed (← since start)
  let count ← if (← current?) = some ',' then do
      if !(← advanceSpaced) then fail .repetitionCountUnclosed (← since start)
      let least ← least
      if (← current?) = some '\x7d' then pure (Count.mk least none)
      else
        let most ← (← readDecimal)
        pure (Count.mk least (some most))
    else do
      let exact ← least
      pure (Count.mk exact (some exact))
  if (← current?) ≠ some '\x7d' then fail .repetitionCountUnclosed (← since start)
  let more ← advanceSpaced
  let lazy := more && (← current?) = some '?'
  if lazy then let _ ← advance
  if count.most.any (· < count.least) then fail .repetitionCountInvalid (← since start)
  return .repetition (← since item.span.first) count (!lazy) item :: items

structure ConcatSoFar where
  start : Position
  items : List Tree

def ConcatSoFar.close (c : ConcatSoFar) (last : Position) : Tree :=
  match c.items with
  | [] => .empty ⟨c.start, last⟩
  | [item] => item
  | items => .concat ⟨c.start, last⟩ items.reverse

def closeBranches (start : Position) (branches : List Tree) (c : ConcatSoFar) (last : Position) :
    Tree :=
  match branches with
  | [] => c.close last
  | _ => .alternation ⟨start, last⟩ (branches.reverse ++ [c.close last])

/-- Reads alternatives up to the end of the pattern or, inside a group, to its closing
parenthesis, which is left. `opening` is the span of the parenthesis of an open group. Each step
reads a character, so that the length of the rest bounds their number. -/
def readBranches : Nat → Option Span → Position → List Tree → ConcatSoFar → Reader Tree
  | 0, _, start, branches, c => return closeBranches start branches c (← position)
  | n + 1, opening, start, branches, c => do
    skipBlanks
    let push (item : Tree) := readBranches n opening start branches ⟨c.start, item :: c.items⟩
    let replace (items : List Tree) := readBranches n opening start branches ⟨c.start, items⟩
    match ← current? with
    | none =>
      match opening with
      | some span => fail .groupUnclosed span
      | none => return closeBranches start branches c (← position)
    | some '(' =>
      match ← readOpening with
      | .flags span signs =>
        match flagState signs .ignoreWhitespace with
        | some verbose => modify fun s => { s with verbose }
        | none => pure ()
        push (.flags span signs)
      | .group span kind =>
        let outer := (← get).verbose
        let inner := match kind with
          | .plain signs => (flagState signs .ignoreWhitespace).getD outer
          | _ => outer
        modify fun s => { s with verbose := inner }
        let first ← position
        let content ← readBranches n (some span) first [] ⟨first, []⟩
        modify fun s => { s with verbose := outer }
        let _ ← advance
        push (.group (← since span.first) kind content)
    | some ')' =>
      match opening with
      | none => fail .groupUnopened (← nextSpan)
      | some _ => return closeBranches start branches c (← position)
    | some '|' =>
      let branch := c.close (← position)
      let _ ← advance
      readBranches n opening start (branch :: branches) ⟨← position, []⟩
    | some '[' => push (← readClass)
    | some '?' => replace (← readSimpleRepetition ⟨0, some 1⟩ c.items)
    | some '*' => replace (← readSimpleRepetition ⟨0, none⟩ c.items)
    | some '+' => replace (← readSimpleRepetition ⟨1, none⟩ c.items)
    | some '\x7b' => replace (← readCountedRepetition c.items)
    | some _ => push (← readPrimitive).toTree

def readTree (pattern : String) : Except Fault Tree :=
  let chars := pattern.toList
  let reader := readBranches (chars.length + 1) none Position.start [] ⟨Position.start, []⟩
  (reader.run ⟨chars, Position.start, false, 0, []⟩).map Prod.fst

def Tree.ofPattern (pattern : String) : Except Fault Tree := do
  let tree ← readTree pattern
  tree.checkNesting 0
  return tree

end Productions.Pattern
