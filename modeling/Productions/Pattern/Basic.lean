import Productions.Pattern.Fault
import Productions.Pattern.Form
import Productions.Pattern.Reader
import Productions.Unicode.CodeSet
import Productions.Unicode.Property

/-! What a pattern matches: from its tree to its normal form. Flags hold from where they are set to
the end of the group around them. A pattern that could match bytes that are no UTF-8 is refused. Of
the flags given beside a pattern only `i`, ignoring case, makes a difference. -/
namespace Productions.Pattern

open Productions.Unicode

structure Flags where
  caseInsensitive : Bool
  multiLine : Bool
  dotMatchesNewLine : Bool
  swapGreed : Bool
  unicode : Bool
  crlf : Bool
  deriving DecidableEq, Repr

def Flags.change (flags : Flags) (signs : List FlagSign) : Flags where
  caseInsensitive := (flagState signs .caseInsensitive).getD flags.caseInsensitive
  multiLine := (flagState signs .multiLine).getD flags.multiLine
  dotMatchesNewLine := (flagState signs .dotMatchesNewLine).getD flags.dotMatchesNewLine
  swapGreed := (flagState signs .swapGreed).getD flags.swapGreed
  unicode := (flagState signs .unicode).getD flags.unicode
  crlf := (flagState signs .crlf).getD flags.crlf

def AsciiClass.set : AsciiClass → CodeSet
  | alnum => CodeSet.ofText "30-39 41-5A 61-7A"
  | alpha => CodeSet.ofText "41-5A 61-7A"
  | ascii => CodeSet.ofText "0-7F"
  | blank => CodeSet.ofText "9 20"
  | cntrl => CodeSet.ofText "0-1F 7F"
  | digit => CodeSet.ofText "30-39"
  | graph => CodeSet.ofText "21-7E"
  | lower => CodeSet.ofText "61-7A"
  | print => CodeSet.ofText "20-7E"
  | punct => CodeSet.ofText "21-2F 3A-40 5B-60 7B-7E"
  | space => CodeSet.ofText "9-D 20"
  | upper => CodeSet.ofText "41-5A"
  | word => CodeSet.ofText "30-39 41-5A 5F 61-7A"
  | xdigit => CodeSet.ofText "30-39 41-46 61-66"

def PerlClass.unicodeSet : PerlClass → CodeSet
  | digit => decimalDigits
  | space => whiteSpace
  | word => wordCharacters

def PerlClass.asciiSet : PerlClass → CodeSet
  | digit => AsciiClass.digit.set
  | space => AsciiClass.space.set
  | word => AsciiClass.word.set

def isAsciiSet (set : CodeSet) : Bool := set.ranges.all fun r => r.last < 0x80

def closeAsciiCase (set : CodeSet) : CodeSet :=
  let shift (letters : CodeSet) (by_ : Int) : CodeSet :=
    CodeSet.ofList ((set.intersection letters).ranges.map fun r =>
      ((r.first + by_).toNat, (r.last + by_).toNat))
  CodeSet.unionAll [set, shift AsciiClass.lower.set (-32), shift AsciiClass.upper.set 32]

def finishSet (flags : Flags) (span : Span) (negated : Bool) (set : CodeSet) :
    Except Fault CodeSet :=
  if flags.unicode then
    let set := if flags.caseInsensitive then CaseFolding.close set else set
    .ok (if negated then set.negate .scalars else set)
  else
    let set := if flags.caseInsensitive then closeAsciiCase set else set
    let set := if negated then set.negate .bytes else set
    if isAsciiSet set then .ok set else .error ⟨.invalidUtf8, span⟩

def unicodeClassSet (flags : Flags) (cls : UnicodeClass) : Except Fault CodeSet :=
  if !flags.unicode then .error ⟨.unicodeNotAllowed, cls.span⟩
  else
    let found := match cls.query with
      | .named name => namedSet name
      | .valued property value => valuedSet property value
    match found with
    | .ok set => finishSet flags cls.span cls.negated set
    | .error .noProperty => .error ⟨.propertyNotFound, cls.span⟩
    | .error .noValue => .error ⟨.propertyValueNotFound, cls.span⟩

/-- The classes written with a letter are closed under case already. -/
def letterClassSet (flags : Flags) (cls : LetterClass) : Except Fault CodeSet :=
  if flags.unicode then
    .ok (if cls.negated then cls.kind.unicodeSet.negate .scalars else cls.kind.unicodeSet)
  else
    let set := if cls.negated then cls.kind.asciiSet.negate .bytes else cls.kind.asciiSet
    if isAsciiSet set then .ok set else .error ⟨.invalidUtf8, cls.span⟩

/-- The code of a character in a class. Without Unicode only ASCII characters may stand there. -/
def classCode (flags : Flags) (l : Literal) : Except Fault Nat :=
  if flags.unicode then .ok l.char.toNat
  else if l.char.toNat < 0x80 then .ok l.char.toNat
  else if l.fromByteEscape then .error ⟨.invalidUtf8, l.span⟩
  else .error ⟨.unicodeNotAllowed, l.span⟩

def Flags.space (flags : Flags) : CodeSpace := if flags.unicode then .scalars else .bytes

/-- The operands of an operation are closed under case before it is applied. -/
def applySetOp (flags : Flags) (kind : SetOp) (left right : CodeSet) : CodeSet :=
  let fold (set : CodeSet) : CodeSet :=
    if !flags.caseInsensitive then set
    else if flags.unicode then CaseFolding.close set else closeAsciiCase set
  let left := fold left
  let right := fold right
  match kind with
  | .intersection => left.intersection right
  | .difference => left.difference flags.space right
  | .symmetricDifference => left.symmetricDifference flags.space right

mutual

def ClassItem.toSet (flags : Flags) : ClassItem → Except Fault CodeSet
  | .empty _ => .ok CodeSet.empty
  | .literal l => do
    let code ← classCode flags l
    return CodeSet.ofList [(code, code)]
  | .range _ first last => do
    let low ← classCode flags first
    let high ← classCode flags last
    return CodeSet.ofList [(low, high)]
  | .ascii span kind negated => finishSet flags span negated kind.set
  | .unicode cls => unicodeClassSet flags cls
  | .letter cls => letterClassSet flags cls
  | .bracketed span negated content => do
    finishSet flags span negated (← content.toSet flags)
  | .union _ items => do return CodeSet.unionAll (← ClassItem.toSets flags items)
  | .op _ kind left right => do
    let left ← left.toSet flags
    let right ← right.toSet flags
    return applySetOp flags kind left right

def ClassItem.toSets (flags : Flags) : List ClassItem → Except Fault (List CodeSet)
  | [] => .ok []
  | item :: items => do
    let set ← item.toSet flags
    let sets ← ClassItem.toSets flags items
    return set :: sets

end

def literalForm (flags : Flags) (l : Literal) : Except Fault Form :=
  let code := l.char.toNat
  if flags.unicode then
    if flags.caseInsensitive && CaseFolding.varies code then
      .ok (Form.ofSet .scalars (CaseFolding.close (CodeSet.ofCodes [code])))
    else .ok (.literal [l.char])
  else if l.fromByteEscape && 0x80 ≤ code then .error ⟨.invalidUtf8, l.span⟩
  else if flags.caseInsensitive && l.char.isAlpha then
    .ok (Form.ofSet .bytes (closeAsciiCase (CodeSet.ofCodes [code])))
  else .ok (.literal [l.char])

def dotForm (flags : Flags) (span : Span) : Except Fault Form :=
  if !flags.unicode then .error ⟨.invalidUtf8, span⟩
  else
    let set := if flags.dotMatchesNewLine then "0-10FFFF"
      else if flags.crlf then "0-9 B-C E-10FFFF" else "0-9 B-10FFFF"
    .ok (Form.ofSet .scalars (CodeSet.ofText set))

def lookForm (flags : Flags) : Assertion → Form
  | .startLine => .look (if flags.multiLine then .startOfLine flags.crlf else .start)
  | .endLine => .look (if flags.multiLine then .endOfLine flags.crlf else .last)
  | .startText => .look .start
  | .endText => .look .last
  | .wordStartAngle => .look (.word .wordStart flags.unicode)
  | .wordEndAngle => .look (.word .wordEnd flags.unicode)
  | kind => .look (.word kind flags.unicode)

mutual

/-- The form of a tree and the flags that hold after it. -/
def Tree.toForm (flags : Flags) : Tree → Except Fault (Form × Flags)
  | .empty _ => .ok (.empty, flags)
  | .flags _ signs => .ok (.empty, flags.change signs)
  | .literal l => do return (← literalForm flags l, flags)
  | .dot span => do return (← dotForm flags span, flags)
  | .assertion _ kind => .ok (lookForm flags kind, flags)
  | .unicode cls => do return (Form.ofSet .scalars (← unicodeClassSet flags cls), flags)
  | .letter cls => do return (Form.ofSet flags.space (← letterClassSet flags cls), flags)
  | .bracketed span negated content => do
    let set ← finishSet flags span negated (← content.toSet flags)
    return (Form.ofSet flags.space set, flags)
  | .repetition _ count greedy content => do
    let (form, after) ← content.toForm flags
    return (Form.makeRepetition count (greedy != after.swapGreed) form, after)
  | .group _ kind content => do
    let inner := match kind with
      | .plain signs => flags.change signs
      | _ => flags
    let (form, _) ← content.toForm inner
    let form := match kind with
      | .plain _ => form
      | .capture index => .capture index none form
      | .named index name => .capture index (some name) form
    return (form, flags)
  | .alternation _ branches => do
    let (forms, after) ← Tree.toForms flags branches
    return (Form.makeAlternation forms, after)
  | .concat _ items => do
    let (forms, after) ← Tree.toForms flags items
    return (Form.makeConcat forms, after)

def Tree.toForms (flags : Flags) : List Tree → Except Fault (List Form × Flags)
  | [] => .ok ([], flags)
  | tree :: trees => do
    let (form, flags) ← tree.toForm flags
    let (forms, flags) ← Tree.toForms flags trees
    return (form :: forms, flags)

end

def parse (value : String) (flags : Option String) : Except Fault Form := do
  let tree ← Tree.ofPattern value
  let caseInsensitive := flags.any fun f => f.toList.contains 'i'
  let (form, _) ← tree.toForm ⟨caseInsensitive, false, false, false, true, false⟩
  return form

/-- Whether a pattern can match the empty text. One that cannot be read does not. -/
def matchesEmpty (value : String) (flags : Option String) : Bool :=
  match parse value flags with
  | .ok form => form.minLength = some 0
  | .error _ => false

def problem? (value : String) (flags : Option String) : Option String :=
  match parse value flags with
  | .ok _ => none
  | .error fault => some (fault.render value)

end Productions.Pattern
