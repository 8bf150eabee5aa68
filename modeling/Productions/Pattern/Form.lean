import Productions.Pattern.Tree
import Productions.Unicode.CodeSet

/-! A pattern with its flags worked in and its classes computed. The constructors of this module
simplify as they build: sequences and alternatives are flat, a choice between classes is a class, a
common start of alternatives is drawn in front of them. -/
namespace Productions.Pattern

open Productions.Unicode (CodeSet CodeSpace)

inductive Look where
  | start
  | last
  | startOfLine (crlf : Bool)
  | endOfLine (crlf : Bool)
  | word (kind : Assertion) (unicode : Bool)
  deriving DecidableEq, Repr

inductive Form where
  | empty
  | literal (chars : List Char)
  | cls (space : CodeSpace) (set : CodeSet)
  | look (kind : Look)
  | repetition (count : Count) (greedy : Bool) (content : Form)
  | capture (index : Nat) (name : Option String) (content : Form)
  | concat (items : List Form)
  | alternation (branches : List Form)

namespace Form

instance : Inhabited Form := ⟨empty⟩

mutual

def same : Form → Form → Bool
  | empty, empty => true
  | literal s, literal t => s == t
  | cls u s, cls v t => u == v && s == t
  | look k, look l => k == l
  | repetition c g x, repetition d h y => c == d && g == h && same x y
  | capture i m x, capture j n y => i == j && m == n && same x y
  | concat xs, concat ys => sameAll xs ys
  | alternation xs, alternation ys => sameAll xs ys
  | _, _ => false

def sameAll : List Form → List Form → Bool
  | [], [] => true
  | x :: xs, y :: ys => same x y && sameAll xs ys
  | _, _ => false

end

def byteLength (code : Nat) : Nat :=
  if code < 0x80 then 1 else if code < 0x800 then 2 else if code < 0x10000 then 3 else 4

mutual

/-- The length in bytes of the shortest match. A part that matches nothing has none, and neither
has any form that contains it. -/
def minLength : Form → Option Nat
  | empty | look _ => some 0
  | literal chars => some (chars.map Char.utf8Size).sum
  | cls .scalars set => set.ranges.head?.map fun r => byteLength r.first
  | cls .bytes set => set.ranges.head?.map fun _ => 1
  | repetition count _ content => (minLength content).map (· * count.least)
  | capture _ _ content => minLength content
  | concat items => minLengthSum items
  | alternation branches => minLengthLeast branches

def minLengthSum : List Form → Option Nat
  | [] => some 0
  | x :: xs => do return (← minLength x) + (← minLengthSum xs)

def minLengthLeast : List Form → Option Nat
  | [] => none
  | [x] => minLength x
  | x :: xs => do return min (← minLength x) (← minLengthLeast xs)

end

mutual

def maxLength : Form → Option Nat
  | empty | look _ => some 0
  | literal chars => some (chars.map Char.utf8Size).sum
  | cls .scalars set => set.ranges.getLast?.map fun r => byteLength r.last
  | cls .bytes set => set.ranges.getLast?.map fun _ => 1
  | repetition count _ content => do return (← maxLength content) * (← count.most)
  | capture _ _ content => maxLength content
  | concat items => maxLengthSum items
  | alternation branches => maxLengthMost branches

def maxLengthSum : List Form → Option Nat
  | [] => some 0
  | x :: xs => do return (← maxLength x) + (← maxLengthSum xs)

def maxLengthMost : List Form → Option Nat
  | [] => none
  | [x] => maxLength x
  | x :: xs => do return max (← maxLength x) (← maxLengthMost xs)

end

def fail : Form := cls .bytes CodeSet.empty

def ofSet (space : CodeSpace) (set : CodeSet) : Form :=
  match set.ranges with
  | [] => fail
  | [r] => if r.first = r.last then literal [Char.ofNat r.first] else cls space set
  | _ => cls space set

def concatParts : Form → List Form
  | empty => []
  | concat items => items
  | form => [form]

def joinLiterals : List Form → List Form
  | literal s :: rest =>
    match joinLiterals rest with
    | literal t :: more => literal (s ++ t) :: more
    | more => literal s :: more
  | form :: rest => form :: joinLiterals rest
  | [] => []

def makeConcat (items : List Form) : Form :=
  match joinLiterals (items.flatMap concatParts) with
  | [] => empty
  | [form] => form
  | parts => concat parts

def makeRepetition (count : Count) (greedy : Bool) (content : Form) : Form :=
  let count := if maxLength content = some 0 then
      ⟨min count.least 1, some ((count.most.map (min 1)).getD 1)⟩
    else count
  if count.least = 0 && count.most = some 0 then empty
  else if count.least = 1 && count.most = some 1 then content
  else repetition count greedy content

def alternationParts : Form → List Form
  | alternation branches => branches
  | form => [form]

def singleChars? (branches : List Form) : Option (List Char) :=
  branches.mapM fun
    | literal [c] => some c
    | _ => none

def classes? (branches : List Form) : Option (List CodeSet) :=
  branches.mapM fun
    | cls _ set => some set
    | _ => none

def commonStart : List Form → List Form → List Form
  | x :: xs, y :: ys => if same x y then x :: commonStart xs ys else []
  | _, _ => []

def concatItems? : Form → Option (List Form)
  | concat items => some items
  | _ => none

def sharedStart? (branches : List Form) : Option (List Form × List (List Form)) :=
  match branches.mapM concatItems? with
  | some (first :: others) =>
    let shared := others.foldl commonStart first
    if shared.isEmpty then none
    else some (shared, (first :: others).map (·.drop shared.length))
  | _ => none

mutual

def size : Form → Nat
  | empty | literal _ | cls _ _ | look _ => 1
  | repetition _ _ content | capture _ _ content => size content + 1
  | concat items | alternation items => sizeAll items + 1

def sizeAll : List Form → Nat
  | [] => 0
  | form :: forms => size form + sizeAll forms

end

/-- Alternatives. Drawing out a common start leaves smaller alternatives, which may have a common
class; `depth` bounds how often this is repeated. -/
def makeAlternationWithin : Nat → List Form → Form
  | depth, branches =>
    match branches.flatMap alternationParts with
    | [] => fail
    | [form] => form
    | parts =>
      match singleChars? parts, classes? parts with
      | some chars, _ => ofSet .scalars (CodeSet.ofCodes (chars.map Char.toNat))
      | none, some sets => ofSet .scalars (CodeSet.unionAll sets)
      | none, none =>
        match depth, sharedStart? parts with
        | depth + 1, some (shared, rests) =>
          makeConcat (shared ++ [makeAlternationWithin depth (rests.map makeConcat)])
        | _, _ => alternation parts

def makeAlternation (branches : List Form) : Form :=
  makeAlternationWithin (sizeAll branches) branches

end Form

end Productions.Pattern
