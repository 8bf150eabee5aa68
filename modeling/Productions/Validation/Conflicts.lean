import Productions.Diagnostic.Basic
import Productions.Expr.Basic
import Productions.Normal.Basic
import Productions.Rule.Nullable

/-! Declared conflicts, sets of rules that may be ambiguous. A set whose members can never compete
for the same input is reported, which the terminals show that each variable can begin with. These
grow in rounds over the bodies until nothing changes. -/
namespace Productions

/-- The first terminals of each variable, the variables that derive the empty text, and which
lexical entries do. -/
structure FirstSets where
  first : List (OrderedSet Symbol)
  nullable : OrderedSet Nat
  emptyTokens : List Bool

namespace FirstSets

def emptyTokensOf (entries : List LexicalEntry) : List Bool :=
  entries.map fun entry => entry.content.nullable fun _ => false

def tokenNullable (emptyTokens : List Bool) : Symbol → Bool
  | .lexical id => emptyTokens.getD id false
  | _ => false

def symbolNullable (f : FirstSets) : Symbol → Bool :=
  Expr.symbolVerdict (tokenNullable f.emptyTokens) f.nullable.contains

def isNullable (f : FirstSets) (e : Expr) : Bool := e.nullable f.symbolNullable

def ofSymbol (first : List (OrderedSet Symbol)) : Symbol → List Symbol
  | .rule id => (first.getD id ∅).toList
  | s => [s]

mutual

def collect (isNullable : Symbol → Bool) (first : List (OrderedSet Symbol)) :
    Expr → List Symbol
  | .symbol s => ofSymbol first s
  | .seq members => collectSeq isNullable first members
  | .choice members => collectChoice isNullable first members
  | .repeated content | .prec _ _ content | .aliased content _ _ | .field _ content =>
    collect isNullable first content

def collectSeq (isNullable : Symbol → Bool) (first : List (OrderedSet Symbol)) :
    List Expr → List Symbol
  | [] => []
  | e :: es =>
    collect isNullable first e
      ++ if e.nullable isNullable then collectSeq isNullable first es else []

def collectChoice (isNullable : Symbol → Bool) (first : List (OrderedSet Symbol)) :
    List Expr → List Symbol
  | [] => []
  | e :: es => collect isNullable first e ++ collectChoice isNullable first es

end

def grow (isNullable : Symbol → Bool) (bodies : List Expr) (first : List (OrderedSet Symbol)) :
    List (OrderedSet Symbol) :=
  bodies.zipIdx.foldl
    (fun sets b => sets.modify b.2 fun set => set.insertAll (collect isNullable sets b.1)) first

/-- Every round that changes something adds a terminal of some body to some set. -/
def rounds (bodies : List Expr) : Nat :=
  bodies.length * (bodies.flatMap Expr.symbols).length + 1

def compute (entries : List LexicalEntry) (bodies : List Expr) : FirstSets :=
  let emptyTokens := emptyTokensOf entries
  let nullable := Expr.nullableIds (tokenNullable emptyTokens) bodies
  let verdict := Expr.symbolVerdict (tokenNullable emptyTokens) nullable.contains
  ⟨settle (grow verdict bodies) (rounds bodies) (bodies.map fun _ => ∅), nullable, emptyTokens⟩

def ofNormalForm (g : NormalForm) : FirstSets := compute g.lexicon g.bodies

/-- The first terminals of a variable, in the order in which the rounds find them. -/
def ofVariable (f : FirstSets) (id : Nat) : OrderedSet Symbol := f.first.getD id ∅

def ofExpr (f : FirstSets) (e : Expr) : OrderedSet Symbol :=
  OrderedSet.ofList (collect f.symbolNullable f.first e)

/-- The first terminals and the nullability of any name, hidden rules included. A token or an
external token counts as not empty. -/
def ofName? (f : FirstSets) (g : NormalForm) (name : String) : Option (OrderedSet Symbol × Bool) :=
  match g.bodyOf name with
  | some body => some (f.ofExpr body, f.isNullable body)
  | none => (g.lookup name).map fun s => (OrderedSet.ofList [s], false)

end FirstSets

structure Conflicts where
  sets : List (List String)
  deriving DecidableEq, Repr

namespace Conflicts

def sortedSet (names : List String) : List String :=
  (OrderedSet.ofList names).toList.mergeSort fun a b => decide (a ≤ b)

def ofDeclared (declared : List (List String)) : Conflicts :=
  ⟨(OrderedSet.ofList ((declared.map sortedSet).filter fun set => !set.isEmpty)).toList⟩

variable (c : Conflicts)

def contains (name : String) : Bool := c.sets.any fun set => set.contains name

/-- Declared itself, or through a hidden rule expanded into it. -/
def covers (v : Variable) : Bool := c.contains v.name || v.inlined.any c.contains

def compete (a b : OrderedSet Symbol × Bool) : Bool :=
  a.2 && b.2 || a.1.toList.any b.1.contains

def someCompete : List (OrderedSet Symbol × Bool) → Bool
  | [] => false
  | a :: rest => rest.any (compete a) || someCompete rest

/-- Whether a set has two members or more, all known, of which no two compete. -/
def isUnnecessary (f : FirstSets) (g : NormalForm) (set : List String) : Bool :=
  let members := set.filterMap (f.ofName? g)
  decide (2 ≤ set.length) && decide (members.length = set.length) && !someCompete members

def reports (f : FirstSets) (g : NormalForm) : List Diagnostic :=
  (c.sets.filter (isUnnecessary f g)).map fun set =>
    .about .unnecessaryConflict (", ".intercalate set) set []

end Conflicts

end Productions
