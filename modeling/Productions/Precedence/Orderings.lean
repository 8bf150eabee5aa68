import Productions.Grammar.Basic
import Productions.Ordered.Map
import Productions.Ordered.Set

/-! Levels of named precedences. An ordering lists names from the highest precedence down. Several
orderings are merged into one: a name is placed once every name directly above it in some ordering
has been placed, and names that become ready are placed in the order in which they became so. What
cannot be placed is reported. With `n` names the first one gets level `n` and the last one level 1. -/
namespace Productions

structure Level where
  level : Int
  assoc : Assoc
  deriving DecidableEq, Repr, Inhabited

abbrev Levels := OrderedMap String Level

namespace Levels

def mergeMissing (levels more : Levels) : Levels :=
  more.entries.foldl (fun m e => m.insertIfNew e.1 e.2) levels

end Levels

namespace Orderings

def neighbours : List String → List (String × String)
  | [] => []
  | [_] => []
  | a :: b :: rest => (a, b) :: neighbours (b :: rest)

/-- Each name directly above another one in some ordering, no pair twice. -/
def above (orderings : List (List String)) : OrderedSet (String × String) :=
  OrderedSet.ofList (orderings.flatMap neighbours)

def names (orderings : List (List String)) : OrderedSet String :=
  OrderedSet.ofList orderings.flatten

def below (pairs : OrderedSet (String × String)) (a : String) : List String :=
  (pairs.toList.filter fun p => p.1 == a).map Prod.snd

def degrees (pairs : OrderedSet (String × String)) (names : OrderedSet String) :
    OrderedMap String Nat :=
  OrderedMap.ofList (names.toList.map fun b => (b, pairs.toList.countP fun p => p.2 == b))

/-- How many names directly above each name have not been placed yet, the names that wait to be
placed because none is missing, and the names that have been placed. -/
structure Placement where
  missing : OrderedMap String Nat
  queue : List String
  placed : List String

namespace Placement

def start (pairs : OrderedSet (String × String)) (names : OrderedSet String) : Placement :=
  let missing := degrees pairs names
  ⟨missing, names.toList.filter fun b => missing.getD b 0 == 0, []⟩

/-- One name less is missing above `b`, which joins the queue if it was the last one. -/
def release (s : Placement) (b : String) : Placement :=
  let left := s.missing.getD b 0 - 1
  { s with
    missing := s.missing.insert b left
    queue := if left = 0 then s.queue ++ [b] else s.queue }

def next (pairs : OrderedSet (String × String)) (s : Placement) : Placement :=
  match s.queue with
  | [] => s
  | a :: queue => (below pairs a).foldl release { s with queue, placed := s.placed ++ [a] }

def run (pairs : OrderedSet (String × String)) : (steps : Nat) → Placement → Placement
  | 0, s => s
  | steps + 1, s => run pairs steps (next pairs s)

end Placement

/-- The placement when no name waits any more. Each step places a name, and with an empty queue
nothing changes, so there are enough steps if there are as many as names. -/
def placement (orderings : List (List String)) : Placement :=
  let pairs := above orderings
  let names := names orderings
  (Placement.start pairs names).run pairs names.size

/-- The first of `n` names has level `n`. -/
def rank : List String → List (String × Level)
  | [] => []
  | name :: rest => (name, ⟨rest.length + 1, .none⟩) :: rank rest

/-- The levels of the merged orderings, or the names above which some are missing for good. -/
def levels (orderings : List (List String)) : Except (List String) Levels :=
  let final := placement orderings
  if final.placed.length = (names orderings).size then .ok (OrderedMap.ofList (rank final.placed))
  else .error ((final.missing.entries.filter fun e => 0 < e.2).map Prod.fst)

def cycleMessage (names : List String) : String :=
  "precedence orderings form a cycle through " ++ ", ".intercalate names

end Orderings

end Productions
