import Productions.Ordered.Map
import Productions.Ordered.Set

/-! Directed graphs, their strongly connected components and their cycles. A graph lists its nodes
in order, each with its successors in order; a successor that is no node of the graph is passed
over. A search ends because it enters no node twice. Components come by Tarjan's algorithm, so one
is complete after every other one it leads to, and holds its nodes in the order in which they were
entered. A cycle is found where a search meets a node of the path it is on. -/
namespace Productions

abbrev Graph (α : Type) := OrderedMap α (OrderedSet α)

namespace Graph

variable {α : Type} [DecidableEq α]

def successors (g : Graph α) (a : α) : List α := (g.getD a ∅).toList

def missing (g : Graph α) (xs : List α) : List α := g.keys.filter fun a => decide (a ∉ xs)

/-- Nodes that have been entered are missing no more. -/
theorem length_missing_lt {g : Graph α} {xs ys : List α} {a : α} (ha : a ∈ g.keys) (hx : a ∉ xs)
    (grown : xs ++ [a] ⊆ ys) : (g.missing ys).length < (g.missing xs).length := by
  have fewer : g.missing ys = (g.missing xs).filter fun b => decide (b ∉ ys) := by
    simp only [missing, List.filter_filter]
    apply List.filter_congr
    intro b _
    rw [← Bool.decide_and]
    congr 1
    exact propext ⟨fun h => ⟨h, fun hb => h (grown (List.mem_append_left _ hb))⟩, And.left⟩
  rw [fewer]
  apply List.length_filter_lt_length_iff_exists.2
  have entered : a ∈ ys := grown (List.mem_append_right _ (List.mem_singleton.2 rfl))
  exact ⟨a, by simp [missing, ha, hx], by simp [entered]⟩

/-- What a path that is given backwards holds from a node on. -/
def since (path : List α) (a : α) : List α :=
  a :: (path.takeWhile fun b => decide (b ≠ a)).reverse

theorem since_append {front rest : List α} {a : α} (new : a ∉ front) :
    since (front ++ a :: rest) a = a :: front.reverse := by
  have apart : ∀ b ∈ front, decide (b ≠ a) = true := fun b hb =>
    decide_eq_true fun same => new (same ▸ hb)
  rw [since, List.takeWhile_append_of_pos apart]
  simp

def walk (g : Graph α) : (pending entered : List α) → List α
  | [], entered => entered
  | a :: pending, entered =>
    if a ∈ g.keys ∧ a ∉ entered then walk g (g.successors a ++ pending) (entered ++ [a])
    else walk g pending entered
  termination_by pending entered => ((g.missing entered).length, pending.length)
  decreasing_by
    · rename_i fresh
      exact Prod.Lex.left _ _ (length_missing_lt fresh.1 fresh.2 (List.Subset.refl _))
    · exact Prod.Lex.right _ (by simp)

/-- The nodes that can be reached from some start in any number of steps, none included. -/
def reach (g : Graph α) (starts : List α) : List α := g.walk starts []

/-- The state of the search. The node entered last is the first one on the stack. -/
structure Descent (α : Type) where
  next : Nat
  index : OrderedMap α Nat
  low : OrderedMap α Nat
  stack : List α
  components : List (List α)

namespace Descent

variable (s : Descent α) (a : α)

def start : Descent α := ⟨0, ∅, ∅, [], []⟩

def entered : List α := s.index.keys

def number : Nat := s.index.getD a 0

def link : Nat := s.low.getD a 0

def enter : Descent α where
  next := s.next + 1
  index := s.index.insert a s.next
  low := s.low.insert a s.next
  stack := a :: s.stack
  components := s.components

def lower (n : Nat) : Descent α :=
  match s.low.get? a with
  | none => s
  | some m => { s with low := s.low.insert a (min m n) }

/-- Takes a component from the stack if the node turns out to be the first one of it. -/
def close : Descent α :=
  if s.link a = s.number a then
    { s with
      stack := (s.stack.dropWhile fun b => decide (b ≠ a)).tail
      components := s.components ++ [since s.stack a] }
  else s

variable {s a}

theorem entered_enter (new : a ∉ s.entered) : (s.enter a).entered = s.entered ++ [a] := by
  rw [entered] at new ⊢
  rw [enter, OrderedMap.keys_insert, if_neg new, entered]

@[simp] theorem entered_lower {n : Nat} : (s.lower a n).entered = s.entered := by
  rw [lower]
  split <;> rfl

@[simp] theorem entered_close : (s.close a).entered = s.entered := by
  rw [close]
  split <;> rfl

/-- A state after which nothing that has been entered is forgotten. -/
abbrev After (s : Descent α) := { t : Descent α // s.entered ⊆ t.entered }

end Descent

def follow (g : Graph α) (a : α) : (bs : List α) → (s : Descent α) → s.After
  | [], s => ⟨s, fun _ h => h⟩
  | b :: bs, s =>
    if inside : b ∈ g.keys then
      if new : b ∉ s.entered then
        let inner := follow g b (g.successors b) (s.enter b)
        let closed := inner.1.close b
        have grown : s.entered ++ [b] ⊆ closed.entered := by
          rw [Descent.entered_close, ← Descent.entered_enter new]
          exact inner.2
        let outer := follow g a bs (closed.lower a (closed.link b))
        ⟨outer.1, fun _ h => outer.2 (by
          rw [Descent.entered_lower]
          exact grown (List.mem_append_left _ h))⟩
      else if b ∈ s.stack then
        let outer := follow g a bs (s.lower a (s.number b))
        ⟨outer.1, fun _ h => outer.2 (by rwa [Descent.entered_lower])⟩
      else follow g a bs s
    else follow g a bs s
  termination_by bs s => ((g.missing s.entered).length, bs.length)
  decreasing_by
    · rw [Descent.entered_enter new]
      exact Prod.Lex.left _ _ (length_missing_lt inside new (List.Subset.refl _))
    · rw [Descent.entered_lower]
      exact Prod.Lex.left _ _ (length_missing_lt inside new grown)
    · rw [Descent.entered_lower]
      exact Prod.Lex.right _ (by simp)
    · exact Prod.Lex.right _ (by simp)
    · exact Prod.Lex.right _ (by simp)

def connect (g : Graph α) (s : Descent α) (a : α) : Descent α :=
  (g.follow a (g.successors a) (s.enter a)).1.close a

def connectAll (g : Graph α) (s : Descent α) (nodes : List α) : Descent α :=
  nodes.foldl (fun s a => if a ∈ s.entered then s else g.connect s a) s

def components (g : Graph α) : List (List α) := (g.connectAll .start g.keys).components

/-- Whether some node of a component reaches itself in one or more steps. -/
def isRecursive (g : Graph α) : List α → Bool
  | [a] => decide (a ∈ g.successors a)
  | component => decide (1 < component.length)

inductive Task (α : Type) where
  | enter (node : α)
  | leave (node : α)

def cycleWalk (g : Graph α) : List (Task α) → (path entered : List α) → Option (List α)
  | [], _, _ => none
  | .leave _ :: tasks, path, entered => cycleWalk g tasks path.tail entered
  | .enter a :: tasks, path, entered =>
    if a ∈ path then some (since path a)
    else if h : a ∈ g.keys ∧ a ∉ entered then
      cycleWalk g ((g.successors a).map .enter ++ .leave a :: tasks) (a :: path) (entered ++ [a])
    else cycleWalk g tasks path entered
  termination_by tasks _ entered => ((g.missing entered).length, tasks.length)
  decreasing_by
    · exact Prod.Lex.right _ (by simp)
    · exact Prod.Lex.left _ _ (length_missing_lt h.1 h.2 (List.Subset.refl _))
    · exact Prod.Lex.right _ (by simp)

/-- The first cycle met by a depth-first search from the starts in turn. -/
def findCycle (g : Graph α) (starts : List α) : Option (List α) :=
  g.cycleWalk (starts.map .enter) [] []

def showCycle (cycle : List String) : String :=
  " -> ".intercalate (cycle ++ cycle.head?.toList)

end Graph

end Productions
