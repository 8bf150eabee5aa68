import Productions.Unicode.Age
import Productions.Unicode.Binary
import Productions.Unicode.Category
import Productions.Unicode.Script
import Productions.Unicode.Segmentation

/-! Names are compared loosely: case, blanks, hyphens, underscores and a leading `is` do not count.
A query is a single name, of a binary property, a general category or a script, or a property
together with one of its values. -/
namespace Productions.Unicode

def looseChars (cs : List Char) : List Char :=
  (cs.filter fun c => c ≠ ' ' && c ≠ '_' && c ≠ '-' && c.toNat < 0x80).map Char.toLower

/-- The form in which names are compared. `isc` keeps its first letters: it is a name of its own. -/
def looseName (name : String) : String :=
  let cs := name.toList
  match cs with
  | i :: s :: rest =>
    if i.toLower = 'i' && s.toLower = 's' then
      let tail := looseChars rest
      String.ofList (if tail = ['c'] then ['i', 's', 'c'] else tail)
    else String.ofList (looseChars cs)
  | _ => String.ofList (looseChars cs)

def fullName? (table : List (String × List String)) (loose : String) : Option String :=
  (table.find? fun e => (e.1 :: e.2).any fun n => looseName n = loose).map Prod.fst

inductive ValuedProperty where
  | category
  | script
  | scriptExtensions
  | age
  | graphemeBreak
  | wordBreak
  | sentenceBreak
  deriving DecidableEq, Repr

namespace ValuedProperty

def names : List (ValuedProperty × List String) := [
  (category, ["General_Category", "gc"]),
  (script, ["Script", "sc"]),
  (scriptExtensions, ["Script_Extensions", "scx"]),
  (age, ["Age"]),
  (graphemeBreak, ["Grapheme_Cluster_Break", "GCB"]),
  (wordBreak, ["Word_Break", "WB"]),
  (sentenceBreak, ["Sentence_Break", "SB"])]

def ofName? (loose : String) : Option ValuedProperty :=
  (names.find? fun e => e.2.any fun n => looseName n = loose).map Prod.fst

end ValuedProperty

/-- Further properties of the standard, which have no set and no values here. -/
def furtherProperties : List String := [
  "bc", "Bidi_Class", "blk", "Block", "bmg", "Bidi_Mirroring_Glyph", "bpb", "Bidi_Paired_Bracket",
  "bpt", "Bidi_Paired_Bracket_Type", "ccc", "Canonical_Combining_Class", "CE",
  "Composition_Exclusion", "cf", "Case_Folding", "cjkAccountingNumeric", "kAccountingNumeric",
  "cjkCompatibilityVariant", "kCompatibilityVariant", "cjkIICore", "kIICore", "cjkIRG_GSource",
  "kIRG_GSource", "cjkIRG_HSource", "kIRG_HSource", "cjkIRG_JSource", "kIRG_JSource",
  "cjkIRG_KPSource", "kIRG_KPSource", "cjkIRG_KSource", "kIRG_KSource", "cjkIRG_MSource",
  "kIRG_MSource", "cjkIRG_SSource", "kIRG_SSource", "cjkIRG_TSource", "kIRG_TSource",
  "cjkIRG_UKSource", "kIRG_UKSource", "cjkIRG_USource", "kIRG_USource", "cjkIRG_VSource",
  "kIRG_VSource", "cjkOtherNumeric", "kOtherNumeric", "cjkPrimaryNumeric", "kPrimaryNumeric",
  "cjkRSUnicode", "kRSUnicode", "Unicode_Radical_Stroke", "URS", "Comp_Ex",
  "Full_Composition_Exclusion", "CWKCF", "Changes_When_NFKC_Casefolded", "dm",
  "Decomposition_Mapping", "dt", "Decomposition_Type", "ea", "East_Asian_Width", "EqUIdeo",
  "Equivalent_Unified_Ideograph", "FC_NFKC", "FC_NFKC_Closure", "hst", "Hangul_Syllable_Type",
  "InCB", "Indic_Conjunct_Break", "InPC", "Indic_Positional_Category", "InSC",
  "Indic_Syllabic_Category", "isc", "ISO_Comment", "jg", "Joining_Group", "JSN",
  "Jamo_Short_Name", "jt", "Joining_Type", "kEH_Cat", "kEH_Desc", "kEH_HG", "kEH_IFAO",
  "kEH_JSesh", "kEH_NoMirror", "kEH_NoRotate", "lb", "Line_Break", "lc", "Lowercase_Mapping",
  "na", "Name", "na1", "Unicode_1_Name", "Name_Alias", "NFC_QC", "NFC_Quick_Check", "NFD_QC",
  "NFD_Quick_Check", "NFKC_CF", "NFKC_Casefold", "NFKC_QC", "NFKC_Quick_Check", "NFKC_SCF",
  "NFKC_Simple_Casefold", "NFKD_QC", "NFKD_Quick_Check", "nt", "Numeric_Type", "nv",
  "Numeric_Value", "scf", "Simple_Case_Folding", "sfc", "slc", "Simple_Lowercase_Mapping", "stc",
  "Simple_Titlecase_Mapping", "suc", "Simple_Uppercase_Mapping", "tc", "Titlecase_Mapping", "uc",
  "Uppercase_Mapping", "vo", "Vertical_Orientation", "XO_NFC", "Expands_On_NFC", "XO_NFD",
  "Expands_On_NFD", "XO_NFKC", "Expands_On_NFKC", "XO_NFKD", "Expands_On_NFKD"]

inductive LookupError where
  | noProperty
  | noValue
  deriving DecidableEq, Repr

/-- A category, with the three sets that are named like categories. -/
def categoryName? (loose : String) : Option String :=
  match loose with
  | "any" => some "Any"
  | "assigned" => some "Assigned"
  | "ascii" => some "ASCII"
  | _ => fullName? Category.names loose

def categorySet (name : String) : Except LookupError CodeSet :=
  match name with
  | "Any" => .ok (CodeSet.ofList [(0, 0x10FFFF)])
  | "ASCII" => .ok (CodeSet.ofList [(0, 0x7F)])
  | "Assigned" => .ok Category.assigned
  | _ => match Category.set? name with
    | some set => .ok set
    | none => .error .noValue

def valueSet (table : List (String × List String)) (set? : String → Option CodeSet)
    (loose : String) : Except LookupError CodeSet :=
  match (fullName? table loose).bind set? with
  | some set => .ok set
  | none => .error .noValue

/-- The set of a single name. The names `cf`, `sc` and `lc` are categories, although properties
have them as short names too. -/
def namedSet (name : String) : Except LookupError CodeSet :=
  let loose := looseName name
  let isProperty := loose ≠ "cf" && loose ≠ "sc" && loose ≠ "lc" &&
    ((fullName? Binary.names loose).isSome || (ValuedProperty.ofName? loose).isSome ||
      furtherProperties.any fun n => looseName n = loose)
  if isProperty then
    match (fullName? Binary.names loose).bind Binary.set? with
    | some set => .ok set
    | none => .error .noProperty
  else
    match categoryName? loose, fullName? Script.names loose with
    | some category, _ => categorySet category
    | none, some script => match Script.set? script with
      | some set => .ok set
      | none => .error .noValue
    | none, none => .error .noProperty

def valuedSet (property value : String) : Except LookupError CodeSet :=
  let loose := looseName property
  let value := looseName value
  match ValuedProperty.ofName? loose with
  | some .category => match categoryName? value with
    | some category => categorySet category
    | none => .error .noValue
  | some .script => valueSet Script.names Script.set? value
  | some .scriptExtensions => valueSet Script.names Script.extended? value
  | some .age => valueSet Age.names Age.set? value
  | some .graphemeBreak => valueSet GraphemeBreak.names GraphemeBreak.set? value
  | some .wordBreak => valueSet WordBreak.names WordBreak.set? value
  | some .sentenceBreak => valueSet SentenceBreak.names SentenceBreak.set? value
  | none =>
    if (fullName? Binary.names loose).isSome ||
        furtherProperties.any fun n => looseName n = loose then .error .noValue
    else .error .noProperty

def decimalDigits : CodeSet := Binary.categories ["Decimal_Number"]

def whiteSpace : CodeSet := Binary.listed "White_Space"

def wordCharacters : CodeSet :=
  CodeSet.unionAll [Binary.alphabetic, Binary.listed "Join_Control",
    Binary.categories ["Mark", "Decimal_Number", "Connector_Punctuation"]]

def isBlank (c : Char) : Bool := whiteSpace.contains c.toNat

def isAlphabetic (c : Char) : Bool :=
  if c.toNat < 0x80 then c.isAlpha else Binary.alphabetic.contains c.toNat

def isAlphanumeric (c : Char) : Bool :=
  if c.toNat < 0x80 then c.isAlphanum
  else isAlphabetic c || (Binary.categories ["Number"]).contains c.toNat

end Productions.Unicode
