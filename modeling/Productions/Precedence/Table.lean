import Productions.Expr.Basic
import Productions.Graph.Basic
import Productions.Normal.Basic

/-! Disambiguation tables. A completed alternative and one that could extend it meet: the higher
level wins, and on equal levels the associativity of the completed one decides. A variable needs a
table if one of its alternatives is annotated or refers back to it, by the variable itself or by one
that can derive it alone by choosing. The table settles each meeting of an alternative that can end
with such a symbol and one that can begin with it. -/
namespace Productions

inductive Resolution where
  | preferReduce
  | preferShift
  | nonAssociative
  | dynamic
  | unresolved
  deriving DecidableEq, Repr

def Resolution.word : Resolution → String
  | preferReduce => "reduce"
  | preferShift => "shift"
  | nonAssociative => "error"
  | dynamic => "dynamic"
  | unresolved => "unresolved"

/-- The annotation of an alternative: its level with an associativity, and its dynamic level. With
a dynamic level alone the associativity is dynamic. -/
structure Annotation where
  level : Option Int
  assoc : Assoc
  dynamic : Option Int
  deriving DecidableEq, Repr

namespace Annotation

def empty : Annotation := ⟨none, .none, none⟩

def valueLevel : Precedence → Int
  | .integer level => level
  | .name _ => 0

/-- Reads the annotations around an expression, the outermost first; the first level and the first
dynamic level count. -/
def collect (found : Annotation) : Expr → Annotation
  | .prec value .dynamic content =>
    collect { found with dynamic := found.dynamic.or (some (valueLevel value)) } content
  | .prec value assoc content =>
    collect (if found.level.isNone then { found with level := some (valueLevel value), assoc }
      else found) content
  | _ => found

def of (alternative : Expr) : Annotation :=
  let found := collect empty alternative
  if found.level.isNone && found.dynamic.isSome then { found with assoc := .dynamic } else found

def isAnnotated (a : Annotation) : Bool := a.level.isSome || a.dynamic.isSome

def effectiveLevel (a : Annotation) : Int := a.level.getD 0

def resolve (reduce shift : Annotation) : Resolution :=
  if !reduce.isAnnotated && !shift.isAnnotated then .unresolved
  else if shift.effectiveLevel < reduce.effectiveLevel then .preferReduce
  else if reduce.effectiveLevel < shift.effectiveLevel then .preferShift
  else match reduce.assoc with
    | .left => .preferReduce
    | .right => .preferShift
    | .dynamic => .dynamic
    | .none => if reduce.level.isSome then .nonAssociative else .unresolved

end Annotation

structure Alternative where
  precedence : Annotation
  selfReferential : Bool
  leftOpen : Bool
  rightOpen : Bool
  deriving DecidableEq, Repr

/-- What happens where the alternative `reduce` is complete and `shift` could go on. -/
structure TieBreak where
  reduce : Nat
  shift : Nat
  resolution : Resolution
  deriving DecidableEq, Repr

structure Disambiguation where
  rule : String
  id : Nat
  alternatives : List Alternative
  tieBreaks : List TieBreak
  deriving DecidableEq, Repr

namespace Expr

mutual

/-- The variables an expression can be as a whole, through choices and annotations. -/
def unitIds : Expr → List Nat
  | symbol (.rule id) => [id]
  | symbol _ | seq _ | repeated _ => []
  | choice members => unitIdsAll members
  | prec _ _ content | aliased content _ _ | field _ content => unitIds content

def unitIdsAll : List Expr → List Nat
  | [] => []
  | e :: es => unitIds e ++ unitIdsAll es

end

end Expr

namespace Disambiguation

def unitGraph (bodies : List Expr) : Graph Nat :=
  OrderedMap.ofList (bodies.zipIdx.map fun b => (b.2, OrderedSet.ofList b.1.unitIds))

/-- For each variable, those it can be as a whole, itself included. -/
def unitClosure (bodies : List Expr) : List (List Nat) :=
  let graph := unitGraph bodies
  (List.range bodies.length).map fun id => graph.reach [id]

def standsFor (closure : List (List Nat)) (id : Nat) : Symbol → Bool
  | .rule other => closure[other]?.any fun units => units.contains id
  | _ => false

def alternative (target isNullable : Symbol → Bool) (e : Expr) : Alternative where
  precedence := Annotation.of e
  selfReferential := e.symbols.any target
  leftOpen := e.startsWith target isNullable
  rightOpen := e.endsWith target isNullable

/-- Each alternative that is open to the right meets each one that is open to the left. -/
def meetings (alternatives : List Alternative) : List TieBreak :=
  (alternatives.zipIdx.filter fun r => r.1.rightOpen).flatMap fun r =>
    (alternatives.zipIdx.filter fun s => s.1.leftOpen).map fun s =>
      ⟨r.2, s.2, r.1.precedence.resolve s.1.precedence⟩

def isWanted (alternatives : List Alternative) : Bool :=
  alternatives.any fun a => a.selfReferential || a.precedence.isAnnotated

def ofVariable? (closure : List (List Nat)) (isNullable : Symbol → Bool) (v : Variable)
    (id : Nat) : Option Disambiguation :=
  let alternatives := v.body.alternatives.map (alternative (standsFor closure id) isNullable)
  if isWanted alternatives then some ⟨v.name, id, alternatives, meetings alternatives⟩ else none

/-- The tables of a normal form whose named precedences have been resolved. -/
def tables (g : NormalForm) : List Disambiguation :=
  let nullable := Expr.nullableIds (fun _ => false) g.bodies
  let closure := unitClosure g.bodies
  g.vars.zipIdx.filterMap fun v =>
    ofVariable? closure (Expr.symbolVerdict (fun _ => false) nullable.contains) v.1 v.2

variable (d : Disambiguation)

def tieBreak (reduce shift : Nat) : Option Resolution :=
  (d.tieBreaks.find? fun t => t.reduce == reduce && t.shift == shift).map TieBreak.resolution

def unresolved : List TieBreak := d.tieBreaks.filter fun t => t.resolution == .unresolved

def dynamicAlternatives : List Nat :=
  (d.alternatives.zipIdx.filter fun a => a.1.precedence.dynamic.isSome).map Prod.snd

end Disambiguation

end Productions
