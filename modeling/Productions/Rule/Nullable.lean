import Productions.Grammar.Basic
import Productions.Ordered.Map
import Productions.Ordered.Set
import Productions.Pattern.Basic

/-! Whether a rule derives the empty text depends on the names it refers to. For a set of named
rules the answer is a least fixed point, so a rule that only refers back to itself derives nothing.
A rule derives another one alone where everything around the reference derives the empty text. -/
namespace Productions

def Terminal.nullable : Terminal → Bool
  | .literal text => text.isEmpty
  | .pattern value flags => Pattern.matchesEmpty value flags

namespace Rule

mutual

def nullable (isNullable : String → Bool) : Rule → Bool
  | terminal t => t.nullable
  | symbol name => isNullable name
  | seq members => everyNullable isNullable members
  | choice members => someNullable isNullable members
  | repeated _ .zeroOrMore => true
  | repeated content .oneOrMore => nullable isNullable content
  | optional _ => true
  | token content _ | prec _ _ content | aliased content _ _ | field _ content =>
    nullable isNullable content

def everyNullable (isNullable : String → Bool) : List Rule → Bool
  | [] => true
  | rule :: rules => nullable isNullable rule && everyNullable isNullable rules

def someNullable (isNullable : String → Bool) : List Rule → Bool
  | [] => false
  | rule :: rules => nullable isNullable rule || someNullable isNullable rules

end

theorem everyNullable_eq_all (isNullable : String → Bool) (rules : List Rule) :
    everyNullable isNullable rules = rules.all (nullable isNullable) := by
  induction rules with
  | nil => rfl
  | cons r rs ih => simp [everyNullable, ih]

theorem someNullable_eq_any (isNullable : String → Bool) (rules : List Rule) :
    someNullable isNullable rules = rules.any (nullable isNullable) := by
  induction rules with
  | nil => rfl
  | cons r rs ih => simp [someNullable, ih]

/-- The names whose rules derive the empty text, in the order in which they are found. -/
def nullableNames (bodies : OrderedMap String Rule) : OrderedSet String :=
  OrderedSet.leastClosed nullable bodies.entries

mutual

def unitOccurrences (isNullable : String → Bool) : Rule → List String
  | terminal _ => []
  | symbol name => [name]
  | seq members => unitMembers isNullable true members
  | choice members => unitAlternatives isNullable members
  | repeated content _ | optional content | token content _ | prec _ _ content
  | aliased content _ _ | field _ content => unitOccurrences isNullable content

/-- Members of a sequence count where all the others derive the empty text; `before` tells this of
the members already passed. -/
def unitMembers (isNullable : String → Bool) (before : Bool) : List Rule → List String
  | [] => []
  | rule :: rules =>
    (if before && everyNullable isNullable rules then unitOccurrences isNullable rule else [])
      ++ unitMembers isNullable (before && nullable isNullable rule) rules

def unitAlternatives (isNullable : String → Bool) : List Rule → List String
  | [] => []
  | rule :: rules => unitOccurrences isNullable rule ++ unitAlternatives isNullable rules

end

def units (isNullable : String → Bool) (rule : Rule) : OrderedSet String :=
  OrderedSet.ofList (rule.unitOccurrences isNullable)

end Rule

end Productions
