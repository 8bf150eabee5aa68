import Productions.Grammar.Basic
import Productions.Ordered.Set

/-! Expressions over numbered symbols. After resolution every reference is a number: of a variable,
of a lexical entry or of an external token. An expression has no optional part, no repetition of one
or more and no token around anything; the blank expression is the empty sequence. What it can begin
and end with is found by passing over parts that derive the empty text. -/
namespace Productions

inductive Symbol where
  | rule (id : Nat)
  | lexical (id : Nat)
  | external (id : Nat)
  deriving DecidableEq, Repr

/-- Lexical entries and external tokens end a derivation. -/
def Symbol.isTerminal : Symbol → Bool
  | rule _ => false
  | lexical _ | external _ => true

inductive Expr where
  | symbol (symbol : Symbol)
  | seq (members : List Expr)
  | choice (members : List Expr)
  | repeated (content : Expr)
  | prec (value : Precedence) (assoc : Assoc) (content : Expr)
  | aliased (content : Expr) (value : String) (named : Bool)
  | field (name : String) (content : Expr)

namespace Expr

def blank : Expr := seq []

instance : Inhabited Expr := ⟨blank⟩

def isBlank : Expr → Bool
  | seq members => members.isEmpty
  | _ => false

def children : Expr → List Expr
  | symbol _ => []
  | seq members | choice members => members
  | repeated content | prec _ _ content | aliased content _ _ | field _ content => [content]

def alternatives : Expr → List Expr
  | choice members => members
  | e => [e]

mutual

def same : Expr → Expr → Bool
  | symbol s, symbol t => s == t
  | seq es, seq fs => sameAll es fs
  | choice es, choice fs => sameAll es fs
  | repeated e, repeated f => same e f
  | prec v a e, prec w b f => v == w && a == b && same e f
  | aliased e v i, aliased f w j => same e f && v == w && i == j
  | field m e, field n f => m == n && same e f
  | _, _ => false

def sameAll : List Expr → List Expr → Bool
  | [], [] => true
  | e :: es, f :: fs => same e f && sameAll es fs
  | _, _ => false

end

mutual

theorem same_self : (e : Expr) → same e e = true
  | symbol _ => by simp [same]
  | seq es | choice es => by simp [same, sameAll_self es]
  | repeated e | prec _ _ e | aliased e _ _ | field _ e => by simp [same, same_self e]

theorem sameAll_self : (es : List Expr) → sameAll es es = true
  | [] => rfl
  | e :: es => by simp [sameAll, same_self e, sameAll_self es]

end

mutual

theorem eq_of_same : {e f : Expr} → same e f = true → e = f
  | symbol _, f, h => by cases f <;> simp_all [same]
  | seq es, f, h => by
    cases f <;> simp only [same, Bool.false_eq_true] at h
    rw [eq_of_sameAll h]
  | choice es, f, h => by
    cases f <;> simp only [same, Bool.false_eq_true] at h
    rw [eq_of_sameAll h]
  | repeated e, f, h => by
    cases f <;> simp only [same, Bool.false_eq_true] at h
    rw [eq_of_same h]
  | prec v a e, f, h => by
    cases f <;> simp only [same, Bool.false_eq_true, Bool.and_eq_true, beq_iff_eq] at h
    rw [h.1.1, h.1.2, eq_of_same h.2]
  | aliased e v i, f, h => by
    cases f <;> simp only [same, Bool.false_eq_true, Bool.and_eq_true, beq_iff_eq] at h
    rw [eq_of_same h.1.1, h.1.2, h.2]
  | field m e, f, h => by
    cases f <;> simp only [same, Bool.false_eq_true, Bool.and_eq_true, beq_iff_eq] at h
    rw [h.1, eq_of_same h.2]

theorem eq_of_sameAll : {es fs : List Expr} → sameAll es fs = true → es = fs
  | [], fs, h => by cases fs <;> simp_all [sameAll]
  | e :: es, fs, h => by
    cases fs with
    | nil => simp [sameAll] at h
    | cons f fs =>
      simp only [sameAll, Bool.and_eq_true] at h
      rw [eq_of_same h.1, eq_of_sameAll h.2]

end

instance : DecidableEq Expr := fun e f =>
  if h : same e f then isTrue (eq_of_same h)
  else isFalse fun eq => h (eq ▸ same_self e)

/-- What holds of an expression if it holds of its direct parts holds of every expression. -/
@[elab_as_elim, induction_eliminator]
theorem induction {motive : Expr → Prop} (symbol : ∀ s, motive (symbol s))
    (seq : ∀ members, (∀ e ∈ members, motive e) → motive (seq members))
    (choice : ∀ members, (∀ e ∈ members, motive e) → motive (choice members))
    (repeated : ∀ content, motive content → motive (repeated content))
    (prec : ∀ value assoc content, motive content → motive (prec value assoc content))
    (aliased : ∀ content value named, motive content → motive (aliased content value named))
    (field : ∀ name content, motive content → motive (field name content)) (e : Expr) :
    motive e := by
  apply Expr.rec (motive_1 := motive) (motive_2 := fun es => ∀ e ∈ es, motive e) symbol seq choice
    repeated prec aliased field
  · exact fun e he => absurd he List.not_mem_nil
  · intro head tail first rest e he
    rcases List.mem_cons.1 he with rfl | he
    · exact first
    · exact rest e he

def seqParts : Expr → List Expr
  | seq members => members
  | e => [e]

def choiceParts : Expr → List Expr
  | choice members => members
  | e => [e]

def makeSeq (members : List Expr) : Expr :=
  match members.flatMap seqParts with
  | [e] => e
  | parts => seq parts

def makeChoice (members : List Expr) : Expr :=
  match (OrderedSet.ofList (members.flatMap choiceParts)).toList with
  | [e] => e
  | parts => choice parts

mutual

def symbols : Expr → List Symbol
  | symbol s => [s]
  | seq members | choice members => symbolsAll members
  | repeated content | prec _ _ content | aliased content _ _ | field _ content => symbols content

def symbolsAll : List Expr → List Symbol
  | [] => []
  | e :: es => symbols e ++ symbolsAll es

end

theorem symbolsAll_eq_flatMap (es : List Expr) : symbolsAll es = es.flatMap symbols := by
  induction es with
  | nil => rfl
  | cons e es ih => simp [symbolsAll, ih]

def references (e : Expr) (s : Symbol) : Bool := e.symbols.contains s

mutual

def nullable (isNullable : Symbol → Bool) : Expr → Bool
  | symbol s => isNullable s
  | seq members => everyNullable isNullable members
  | choice members => someNullable isNullable members
  | repeated _ => true
  | prec _ _ content | aliased content _ _ | field _ content => nullable isNullable content

def everyNullable (isNullable : Symbol → Bool) : List Expr → Bool
  | [] => true
  | e :: es => nullable isNullable e && everyNullable isNullable es

def someNullable (isNullable : Symbol → Bool) : List Expr → Bool
  | [] => false
  | e :: es => nullable isNullable e || someNullable isNullable es

end

theorem everyNullable_eq_all (isNullable : Symbol → Bool) (es : List Expr) :
    everyNullable isNullable es = es.all (nullable isNullable) := by
  induction es with
  | nil => rfl
  | cons e es ih => simp [everyNullable, ih]

theorem someNullable_eq_any (isNullable : Symbol → Bool) (es : List Expr) :
    someNullable isNullable es = es.any (nullable isNullable) := by
  induction es with
  | nil => rfl
  | cons e es ih => simp [someNullable, ih]

/-- A verdict on terminals together with one on the numbers of variables. -/
def symbolVerdict (terminal : Symbol → Bool) (ofId : Nat → Bool) : Symbol → Bool
  | .rule id => ofId id
  | s => terminal s

/-- The numbers of the bodies that derive the empty text, given the terminals that do. -/
def nullableIds (terminal : Symbol → Bool) (bodies : List Expr) : OrderedSet Nat :=
  OrderedSet.leastClosed (fun found e => e.nullable (symbolVerdict terminal found))
    (bodies.zipIdx.map Prod.swap)

mutual

def startsWith (target isNullable : Symbol → Bool) : Expr → Bool
  | symbol s => target s
  | seq members => seqStartsWith target isNullable members
  | choice members => someStartsWith target isNullable members
  | repeated content | prec _ _ content | aliased content _ _ | field _ content =>
    startsWith target isNullable content

def seqStartsWith (target isNullable : Symbol → Bool) : List Expr → Bool
  | [] => false
  | e :: es =>
    startsWith target isNullable e || nullable isNullable e && seqStartsWith target isNullable es

def someStartsWith (target isNullable : Symbol → Bool) : List Expr → Bool
  | [] => false
  | e :: es => startsWith target isNullable e || someStartsWith target isNullable es

end

mutual

def endsWith (target isNullable : Symbol → Bool) : Expr → Bool
  | symbol s => target s
  | seq members => seqEndsWith target isNullable members
  | choice members => someEndsWith target isNullable members
  | repeated content | prec _ _ content | aliased content _ _ | field _ content =>
    endsWith target isNullable content

/-- A member can be last where all the members after it derive the empty text. -/
def seqEndsWith (target isNullable : Symbol → Bool) : List Expr → Bool
  | [] => false
  | e :: es =>
    seqEndsWith target isNullable es
      || everyNullable isNullable es && endsWith target isNullable e

def someEndsWith (target isNullable : Symbol → Bool) : List Expr → Bool
  | [] => false
  | e :: es => endsWith target isNullable e || someEndsWith target isNullable es

end

end Expr

end Productions
