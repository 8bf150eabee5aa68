/-! Diagnostics. Each kind has a stable code, a severity and its wording. A grammar carries no
positions, so a diagnostic names the rules it is about. -/
namespace Productions.Diagnostic

inductive Severity where
  | error
  | warning
  deriving DecidableEq, Repr

def Severity.word : Severity → String
  | error => "error"
  | warning => "warning"

/-- Kinds in the order of the stages that report them; the last two never block a compilation. -/
inductive Kind where
  | duplicateRuleName
  | unresolvedSymbol
  | cyclicLexicalRule
  | unitCycle
  | invalidSupertype
  | invalidWordRule
  | unreachableStartRule
  | inliningCycle
  | invalidTokenContent
  | invalidExtra
  | unknownPrecedence
  | precedenceCycle
  | invalidPattern
  | emptyToken
  | infiniteRepeat
  | undeclaredAmbiguity
  | unreachableRule
  | unnecessaryConflict
  deriving DecidableEq, Repr

namespace Kind

def severity : Kind → Severity
  | unreachableRule | unnecessaryConflict => .warning
  | _ => .error

def code : Kind → String
  | duplicateRuleName => "duplicate-rule-name"
  | unresolvedSymbol => "unresolved-symbol"
  | cyclicLexicalRule => "cyclic-lexical-rule"
  | unitCycle => "unit-cycle"
  | invalidSupertype => "invalid-supertype"
  | invalidWordRule => "invalid-word-rule"
  | unreachableStartRule => "unreachable-start-rule"
  | inliningCycle => "inlining-cycle"
  | invalidTokenContent => "invalid-token-content"
  | invalidExtra => "invalid-extra"
  | unknownPrecedence => "unknown-precedence"
  | precedenceCycle => "precedence-cycle"
  | invalidPattern => "invalid-pattern"
  | emptyToken => "empty-token"
  | infiniteRepeat => "infinite-repeat"
  | undeclaredAmbiguity => "undeclared-ambiguity"
  | unreachableRule => "unreachable-rule"
  | unnecessaryConflict => "unnecessary-conflict"

def all : List Kind :=
  [duplicateRuleName, unresolvedSymbol, cyclicLexicalRule, unitCycle, invalidSupertype,
    invalidWordRule, unreachableStartRule, inliningCycle, invalidTokenContent, invalidExtra,
    unknownPrecedence, precedenceCycle, invalidPattern, emptyToken, infiniteRepeat,
    undeclaredAmbiguity, unreachableRule, unnecessaryConflict]

def ofCode? (code : String) : Option Kind := all.find? fun kind => kind.code == code

def hint? : Kind → Option String
  | cyclicLexicalRule | unitCycle => some "every cycle must consume at least one terminal"
  | inliningCycle => some "make one rule in the cycle visible"
  | infiniteRepeat => some "make the repeated content consume input"
  | undeclaredAmbiguity => some
      "annotate the alternatives with `prec.left`/`prec.right` or list the rule in `conflicts`"
  | _ => none

def bareMessage : Kind → String
  | duplicateRuleName => "duplicate rule name"
  | unresolvedSymbol => "unresolved symbol"
  | cyclicLexicalRule => "lexical rules form a cycle that consumes no input"
  | unitCycle => "rules derive themselves without consuming input"
  | invalidSupertype => "supertype must be a choice of symbols"
  | invalidWordRule => "word rule must be a token"
  | unreachableStartRule => "grammar has no start rule"
  | inliningCycle => "hidden rules form an inlining cycle"
  | invalidTokenContent => "token content must be lexical"
  | invalidExtra => "extra must be a single symbol or token"
  | unknownPrecedence => "unknown precedence name"
  | precedenceCycle => "precedence orderings conflict"
  | invalidPattern => "invalid pattern"
  | emptyToken => "token matches the empty string"
  | infiniteRepeat => "repeat body can match the empty string"
  | undeclaredAmbiguity => "undeclared ambiguity"
  | unreachableRule => "unreachable rule"
  | unnecessaryConflict => "conflict set has no shared prefix"

def around : Kind → String × String
  | duplicateRuleName => ("`", "` is defined more than once")
  | unresolvedSymbol => ("`", "` is not defined")
  | invalidSupertype => ("supertype `", "` must be a choice of symbols")
  | invalidWordRule => ("word rule `", "` must be a token")
  | unreachableStartRule => ("", "")
  | invalidTokenContent => ("`", "` cannot be used inside a token")
  | unknownPrecedence => ("precedence `", "` is not defined")
  | emptyToken => ("token `", "` matches the empty string")
  | infiniteRepeat => ("repeat in `", "` can match the empty string")
  | undeclaredAmbiguity => ("`", "` is ambiguous and not listed in any conflict set")
  | unreachableRule => ("`", "` is not reachable from the start rule")
  | unnecessaryConflict => ("conflict set [", "] has no shared prefix")
  | kind => (kind.bareMessage ++ ": ", "")

def messageWith (kind : Kind) (detail : String) : String :=
  kind.around.1 ++ detail ++ kind.around.2

def message (kind : Kind) : Option String → String
  | none => kind.bareMessage
  | some detail => kind.messageWith detail

def template (kind : Kind) : String := kind.messageWith "\x7b\x7d"

end Kind

end Productions.Diagnostic

namespace Productions

structure Diagnostic where
  kind : Diagnostic.Kind
  message : String
  rules : List String
  notes : List String
  hints : List String
  deriving DecidableEq, Repr

namespace Diagnostic

/-- A diagnostic with the advice of its kind before any other. -/
def report (kind : Kind) (detail : Option String) (rules notes hints : List String) :
    Diagnostic :=
  ⟨kind, kind.message detail, rules, notes, kind.hint?.toList ++ hints⟩

def about (kind : Kind) (detail : String) (rules notes : List String) : Diagnostic :=
  report kind (some detail) rules notes []

def named (kind : Kind) (name : String) (notes : List String) : Diagnostic :=
  about kind name [name] notes

def severity (d : Diagnostic) : Severity := d.kind.severity
def isError (d : Diagnostic) : Bool := d.severity == .error
def isWarning (d : Diagnostic) : Bool := d.severity == .warning

def heading (d : Diagnostic) : String := d.severity.word ++ "[" ++ d.kind.code ++ "]"

def line (d : Diagnostic) : String :=
  d.heading ++ ": " ++ d.message
    ++ String.join (d.notes.map fun note => " (note: " ++ note ++ ")")
    ++ String.join (d.hints.map fun hint => " (hint: " ++ hint ++ ")")

def hasErrors (ds : List Diagnostic) : Bool := ds.any isError

theorem hasErrors_append (ds es : List Diagnostic) :
    hasErrors (ds ++ es) = (hasErrors ds || hasErrors es) := by
  simp [hasErrors]

/-- Where everything reported would be an error, no errors means no reports. -/
theorem eq_nil_of_hasErrors {ds : List Diagnostic} (all : ∀ d ∈ ds, d.isError = true)
    (none : hasErrors ds = false) : ds = [] := by
  cases ds with
  | nil => rfl
  | cons d ds => simp [hasErrors, all d (by simp)] at none

def errorCount (ds : List Diagnostic) : Nat := ds.countP isError

def warningCount (ds : List Diagnostic) : Nat := ds.countP isWarning

end Diagnostic

end Productions
