import Productions.Proofs.Consistency

/-! Grouping of binary operators by tie-breaks. A parser that reads operands and operators in turn
keeps the operators that are not complete, each with its left operand, the last one first. It
completes them while the tie-break with the next operator says so. Each of them waits for the one
that comes after it, which is what keeps the finished tree in order. -/
namespace Productions

structure Operator (α : Type) where
  token : α
  level : Int
  leftward : Bool
  deriving DecidableEq, Repr

namespace Operator

variable {α : Type}

def assoc (o : Operator α) : Assoc := if o.leftward then .left else .right

def inBody (i : Nat) (o : Operator Symbol) : Expr :=
  .prec (.integer o.level) o.assoc (.seq [.symbol (.rule i), .symbol o.token, .symbol (.rule i)])

/-- An operator is complete before the next one. -/
def Precedes (o next : Operator α) : Prop :=
  next.level < o.level ∨ o.level = next.level ∧ o.leftward = true

/-- An operator takes the next one into its right operand. -/
def WaitsFor (o next : Operator α) : Prop :=
  o.level < next.level ∨ o.level = next.level ∧ o.leftward = false

theorem precedes_or_waitsFor (o next : Operator α) : o.Precedes next ∨ o.WaitsFor next := by
  unfold Precedes WaitsFor
  cases o.leftward <;> simp only [and_true, and_false, or_false, reduceCtorEq] <;> omega

end Operator

namespace Expr

def operator? (i : Nat) : Expr → Option (Operator Symbol)
  | prec (.integer level) .left (seq [symbol left, symbol token, symbol right]) =>
    if left = .rule i ∧ right = .rule i then some ⟨token, level, true⟩ else none
  | prec (.integer level) .right (seq [symbol left, symbol token, symbol right]) =>
    if left = .rule i ∧ right = .rule i then some ⟨token, level, false⟩ else none
  | _ => none

theorem operator?_eq_some_iff {i : Nat} {e : Expr} {o : Operator Symbol} :
    e.operator? i = some o ↔ e = o.inBody i := by
  constructor
  · intro h
    unfold operator? at h
    split at h
    · obtain ⟨⟨rfl, rfl⟩, rfl⟩ := by simpa using h
      rfl
    · obtain ⟨⟨rfl, rfl⟩, rfl⟩ := by simpa using h
      rfl
    · cases h
  · rintro rfl
    obtain ⟨token, level, leftward⟩ := o
    cases leftward <;> simp [Operator.inBody, Operator.assoc, operator?]

def findOperator (i : Nat) (alternatives : List Expr) (token : Symbol) :
    Option (Operator Symbol × Nat) :=
  alternatives.zipIdx.findSome? fun a =>
    ((a.1.operator? i).filter fun o => o.token = token).map fun o => (o, a.2)

end Expr

inductive Grouping where
  | operand (token : Symbol)
  | binary (left : Grouping) (operator : Operator Symbol) (right : Grouping)
  deriving DecidableEq, Repr

namespace Grouping

def tokens : Grouping → List Symbol
  | operand token => [token]
  | binary left operator right => left.tokens ++ operator.token :: right.tokens

def top? : Grouping → Option (Operator Symbol)
  | operand _ => none
  | binary _ operator _ => some operator

/-- A tree of operators of a variable in which each one is above none that should be above it. -/
inductive Ordered (i : Nat) (alternatives : List Expr) : Grouping → Prop where
  | operand (token) : Ordered i alternatives (.operand token)
  | binary {l o r} (known : o.inBody i ∈ alternatives) (left : Ordered i alternatives l)
      (right : Ordered i alternatives r)
      (below_left : ∀ c, l.top? = some c →
        o.level < c.level ∨ c.level = o.level ∧ c.leftward = true)
      (below_right : ∀ c, r.top? = some c →
        o.level < c.level ∨ c.level = o.level ∧ o.leftward = false) :
      Ordered i alternatives (.binary l o r)

end Grouping

structure Pending where
  left : Grouping
  operator : Operator Symbol
  place : Nat

def pendingTokens : List Pending → List Symbol
  | [] => []
  | p :: ps => pendingTokens ps ++ (p.left.tokens ++ [p.operator.token])

namespace Grouping

variable (tie : Nat → Nat → Option Resolution)

/-- Completes operators while their ties with the next alternative prefer to reduce, up to one that
prefers to shift. Any other tie leaves the parser stuck. -/
def reduce (next : Nat) : Grouping → List Pending → Option (Grouping × List Pending)
  | tree, [] => some (tree, [])
  | tree, p :: ps =>
    match tie p.place next with
    | some .preferReduce => reduce next (.binary p.left p.operator tree) ps
    | some .preferShift => some (tree, p :: ps)
    | _ => none

def finish : Grouping → List Pending → Grouping
  | tree, [] => tree
  | tree, p :: ps => finish (.binary p.left p.operator tree) ps

variable (i : Nat) (alternatives : List Expr)

def read (state : Grouping × List Pending) (next : Symbol × Symbol) :
    Option (Grouping × List Pending) := do
  let (operator, place) ← Expr.findOperator i alternatives next.1
  let (left, pending) ← reduce tie place state.1 state.2
  return (.operand next.2, ⟨left, operator, place⟩ :: pending)

def group (first : Symbol) (rest : List (Symbol × Symbol)) : Option Grouping :=
  (rest.foldlM (read tie i alternatives) (.operand first, [])).map fun s => finish s.1 s.2

end Grouping

def Disambiguation.tieIn (tables : List Disambiguation) (i reduce shift : Nat) :
    Option Resolution :=
  (tables.find? fun d => d.id == i).bind fun d => d.tieBreak reduce shift

section Parser

variable {i : Nat} {alternatives : List Expr} {tie : Nat → Nat → Option Resolution}

/-- Pending operators in order: each comes after its left operand, and each waits for the one that
comes after it. -/
inductive Stacked (i : Nat) (alternatives : List Expr) : List Pending → Prop where
  | nil : Stacked i alternatives []
  | cons {p ps} (placed : alternatives[p.place]? = some (p.operator.inBody i))
      (left : p.left.Ordered i alternatives)
      (first : ∀ o, p.left.top? = some o → o.Precedes p.operator)
      (waits : ∀ q, ps.head? = some q → q.operator.WaitsFor p.operator)
      (below : Stacked i alternatives ps) : Stacked i alternatives (p :: ps)

theorem Stacked.placed {p : Pending} {ps : List Pending} (h : Stacked i alternatives (p :: ps)) :
    alternatives[p.place]? = some (p.operator.inBody i) := by
  cases h with
  | cons placed => exact placed

structure Parsed (i : Nat) (alternatives : List Expr) (read : List Symbol) (tree : Grouping)
    (pending : List Pending) : Prop where
  stacked : Stacked i alternatives pending
  ordered : tree.Ordered i alternatives
  waits : ∀ p o, pending.head? = some p → tree.top? = some o → p.operator.WaitsFor o
  tokens : pendingTokens pending ++ tree.tokens = read

/-- Ties that are settled by level, and for equal levels by the side of the first operator. -/
def SettlesOperators (i : Nat) (alternatives : List Expr)
    (tie : Nat → Nat → Option Resolution) : Prop :=
  ∀ r s (o next : Operator Symbol), alternatives[r]? = some (o.inBody i) →
    alternatives[s]? = some (next.inBody i) →
    (o.Precedes next → tie r s = some .preferReduce)
      ∧ (o.WaitsFor next → tie r s = some .preferShift)

namespace Parsed

variable {consumed : List Symbol} {tree : Grouping} {p : Pending} {pending : List Pending}

theorem start (first : Symbol) : Parsed i alternatives [first] (.operand first) [] where
  stacked := .nil
  ordered := .operand first
  waits := by rintro p o ⟨⟩
  tokens := rfl

/-- Completing the last operator keeps everything in order. -/
theorem reduced (h : Parsed i alternatives consumed tree (p :: pending)) :
    Parsed i alternatives consumed (.binary p.left p.operator tree) pending := by
  obtain ⟨stacked, ordered, waits, tokens⟩ := h
  cases stacked with
  | cons placed left first above below =>
    exact {
      stacked := below
      ordered := .binary (List.mem_of_getElem? placed) left ordered first
        fun c top => (waits p c rfl top).imp_right fun same => ⟨same.1.symm, same.2⟩
      waits := fun q o head top => by
        obtain rfl := Option.some.inj top
        exact above q head
      tokens := by
        rw [← tokens, pendingTokens, Grouping.tokens]
        simp }

/-- Completing all operators leaves a tree in order with all tokens. -/
theorem finished (h : Parsed i alternatives consumed tree pending) :
    (Grouping.finish tree pending).Ordered i alternatives
      ∧ (Grouping.finish tree pending).tokens = consumed := by
  induction pending generalizing tree with
  | nil => exact ⟨h.ordered, h.tokens⟩
  | cons p ps ih => exact ih h.reduced

/-- Before the next operator the parser completes operators until it can go on. It never meets a
tie that is not settled. -/
theorem reduce (h : Parsed i alternatives consumed tree pending)
    (settles : SettlesOperators i alternatives tie) {next : Operator Symbol} {place : Nat}
    (placed : alternatives[place]? = some (next.inBody i))
    (first : ∀ o, tree.top? = some o → o.Precedes next) :
    ∃ tree' pending', Grouping.reduce tie place tree pending = some (tree', pending')
      ∧ Parsed i alternatives consumed tree' pending'
      ∧ (∀ o, tree'.top? = some o → o.Precedes next)
      ∧ ∀ q, pending'.head? = some q → q.operator.WaitsFor next := by
  induction pending generalizing tree with
  | nil => exact ⟨tree, [], rfl, h, first, by rintro q ⟨⟩⟩
  | cons p ps ih =>
    have tied := settles p.place place p.operator next h.stacked.placed placed
    rcases p.operator.precedes_or_waitsFor next with precedes | waits
    · rw [Grouping.reduce, tied.1 precedes]
      exact ih h.reduced fun o top => Option.some.inj top ▸ precedes
    · rw [Grouping.reduce, tied.2 waits]
      exact ⟨tree, p :: ps, rfl, h, first, fun q head => Option.some.inj head ▸ waits⟩

end Parsed

theorem findOperator_eq_some {token : Symbol} {o : Operator Symbol} {place : Nat}
    (h : Expr.findOperator i alternatives token = some (o, place)) :
    alternatives[place]? = some (o.inBody i) ∧ o.token = token := by
  obtain ⟨⟨e, k⟩, mem, found⟩ := List.exists_of_findSome?_eq_some h
  simp only [Option.map_eq_some_iff, Option.filter_eq_some_iff, decide_eq_true_eq,
    Prod.mk.injEq] at found
  obtain ⟨_, ⟨is, own⟩, rfl, rfl⟩ := found
  exact ⟨Expr.operator?_eq_some_iff.1 is ▸ List.mem_zipIdx_iff_getElem?.1 mem, own⟩

theorem exists_findOperator {o : Operator Symbol} (known : o.inBody i ∈ alternatives) :
    ∃ o' place, Expr.findOperator i alternatives o.token = some (o', place) := by
  obtain ⟨k, place⟩ := List.getElem?_of_mem known
  have some : (Expr.findOperator i alternatives o.token).isSome := by
    refine List.findSome?_isSome_iff.2 ⟨(o.inBody i, k), List.mem_zipIdx_iff_getElem?.2 place, ?_⟩
    simp [Expr.operator?_eq_some_iff.2 rfl]
  obtain ⟨⟨o', place⟩, found⟩ := Option.isSome_iff_exists.1 some
  exact ⟨o', place, found⟩

namespace Parsed

variable {consumed : List Symbol} {tree : Grouping} {pending : List Pending}

/-- Reading an operator of the variable and an operand keeps everything in order. -/
theorem read (h : Parsed i alternatives consumed tree pending) (operand : tree.top? = none)
    (settles : SettlesOperators i alternatives tie) {next : Symbol × Symbol}
    (known : ∃ o : Operator Symbol, o.token = next.1 ∧ o.inBody i ∈ alternatives) :
    ∃ tree' pending', Grouping.read tie i alternatives (tree, pending) next = some (tree', pending')
      ∧ Parsed i alternatives (consumed ++ [next.1, next.2]) tree' pending'
      ∧ tree'.top? = none := by
  obtain ⟨_, own, known⟩ := known
  obtain ⟨o, place, found⟩ := exists_findOperator known
  rw [own] at found
  obtain ⟨placed, same⟩ := findOperator_eq_some found
  obtain ⟨left, pending', reduced, parsed, precedes, waits⟩ :=
    h.reduce settles placed (by simp [operand])
  refine ⟨.operand next.2, ⟨left, o, place⟩ :: pending', ?_, ?_, rfl⟩
  · simp only [Grouping.read, found, reduced, Option.bind_eq_bind, Option.bind_some,
      Option.pure_def]
  · exact {
      stacked := .cons placed parsed.ordered precedes waits parsed.stacked
      ordered := .operand next.2
      waits := by rintro p c - ⟨⟩
      tokens := by simp [pendingTokens, Grouping.tokens, ← parsed.tokens, same] }

/-- Any number of operators and operands can be read. -/
theorem readAll {rest : List (Symbol × Symbol)} (h : Parsed i alternatives consumed tree pending)
    (operand : tree.top? = none) (settles : SettlesOperators i alternatives tie)
    (known : ∀ next ∈ rest, ∃ o : Operator Symbol, o.token = next.1 ∧ o.inBody i ∈ alternatives) :
    ∃ tree' pending', rest.foldlM (Grouping.read tie i alternatives) (tree, pending)
        = some (tree', pending')
      ∧ Parsed i alternatives (consumed ++ rest.flatMap fun next => [next.1, next.2])
        tree' pending' := by
  induction rest generalizing consumed tree pending with
  | nil => exact ⟨tree, pending, rfl, by simpa using h⟩
  | cons next rest ih =>
    obtain ⟨tree', pending', read, parsed, operand'⟩ :=
      h.read operand settles (known next (by simp))
    obtain ⟨tree'', pending'', readAll, parsed'⟩ :=
      ih parsed operand' fun next mem => known next (by simp [mem])
    refine ⟨tree'', pending'', ?_, by simpa using parsed'⟩
    rw [List.foldlM_cons, read]
    exact readAll

end Parsed

/-- Where ties are settled by level and side, every sequence of operands and operators of the
variable is grouped to a tree in order. -/
theorem exists_group (settles : SettlesOperators i alternatives tie) (first : Symbol)
    {rest : List (Symbol × Symbol)}
    (known : ∀ next ∈ rest, ∃ o : Operator Symbol, o.token = next.1 ∧ o.inBody i ∈ alternatives) :
    ∃ tree, Grouping.group tie i alternatives first rest = some tree
      ∧ tree.Ordered i alternatives
      ∧ tree.tokens = first :: rest.flatMap fun next => [next.1, next.2] := by
  obtain ⟨tree, pending, read, parsed⟩ := (Parsed.start first).readAll rfl settles known
  refine ⟨Grouping.finish tree pending, ?_, parsed.finished⟩
  rw [Grouping.group, read]
  rfl

end Parser

namespace Operator

variable {i : Nat} {o next : Operator Symbol}

theorem static?_inBody : (o.inBody i).static? = some (.integer o.level, o.assoc) := by
  rw [inBody, Expr.static?, Expr.wrappers, List.find?_cons_of_pos]
  cases leftward : o.leftward <;> simp [assoc, leftward]

theorem staticLevel_inBody : (o.inBody i).staticLevel = o.level := by
  rw [Expr.staticLevel, static?_inBody]
  rfl

theorem static?_of_leftward (leftward : o.leftward = true) :
    (o.inBody i).static? = some (.integer o.level, .left) := by
  rw [static?_inBody, assoc, leftward, if_pos rfl]

theorem static?_of_rightward (rightward : o.leftward = false) :
    (o.inBody i).static? = some (.integer o.level, .right) := by
  rw [static?_inBody, assoc, rightward, if_neg Bool.false_ne_true]

theorem Precedes.settles (h : o.Precedes next) :
    (o.inBody i).Settles (next.inBody i) .preferReduce := by
  rcases h with above | ⟨same, leftward⟩
  · exact .higher (by rwa [staticLevel_inBody, staticLevel_inBody])
  · exact .left (by rwa [staticLevel_inBody, staticLevel_inBody]) (static?_of_leftward leftward)

theorem WaitsFor.settles (h : o.WaitsFor next) :
    (o.inBody i).Settles (next.inBody i) .preferShift := by
  rcases h with below | ⟨same, rightward⟩
  · exact .lower (by rwa [staticLevel_inBody, staticLevel_inBody])
  · exact .right (by rwa [staticLevel_inBody, staticLevel_inBody]) (static?_of_rightward rightward)

theorem unfolds_inBody (n : Numbering) : Expr.Unfolds n [o.inBody i]
    [.symbol (.rule i), .symbol o.token, .symbol (.rule i)] :=
  (Expr.Opens.prec _ _ _).unfolds.trans (Expr.Opens.seq _).unfolds

end Operator

namespace Disambiguation

variable {n : NormalForm} {i : Nat} {v : Variable}

theorem standsFor_self (n : Numbering) (i : Nat) : StandsFor n i (.rule i) := ⟨i, rfl, .refl⟩

/-- The only table of a variable is found by its number. -/
theorem find?_tables (lookup : n.vars[i]? = some v) (wanted : isWanted (judged n i v) = true) :
    (tables n).find? (fun d => d.id == i) = some (tableOf n i v) := by
  have mem := mem_tables.2 ⟨i, v, lookup, wanted, rfl⟩
  obtain ⟨d, found⟩ := Option.isSome_iff_exists.1
    (List.find?_isSome (p := fun d : Disambiguation => d.id == i).2 ⟨_, mem, beq_self_eq_true i⟩)
  have own : d.id = i := by simpa using List.find?_some found
  obtain ⟨_, v', lookup', -, rfl⟩ := mem_tables.1 (List.mem_of_find?_eq_some found)
  obtain rfl := own
  obtain rfl := Option.some.inj (lookup.symm.trans lookup')
  exact found

/-- The ties of operators are settled by level and side. -/
theorem settlesOperators_tables (lookup : n.vars[i]? = some v) :
    SettlesOperators i v.body.alternatives (tieIn (tables n) i) := by
  intro r s o next first second
  have wanted : isWanted (judged n i v) = true :=
    (isWanted_iff lookup).2 ⟨_, List.mem_of_getElem? first, .inl (List.cons_ne_nil _ _)⟩
  have tied {res : Resolution} (settles : (o.inBody i).Settles (next.inBody i) res) :
      tieIn (tables n) i r s = some res := by
    rw [tieIn, find?_tables lookup wanted, Option.bind_some, tieBreak_eq_some_iff rfl,
      meet_iff lookup]
    exact ⟨_, _, first, second,
      ⟨_, [.symbol (.rule i), .symbol o.token], standsFor_self _ i, o.unfolds_inBody _⟩,
      ⟨_, _, standsFor_self _ i, next.unfolds_inBody _⟩, settles⟩
  exact ⟨fun precedes => tied precedes.settles, fun waits => tied waits.settles⟩

end Disambiguation

/-- Tables by which every sequence of operands and operators of a variable is grouped, with its
tokens as they come and each operator where its level and side put it. -/
def GroupsOperators (tables : List Disambiguation) (i : Nat) (body : Expr) : Prop :=
  ∀ (first : Symbol) (rest : List (Symbol × Symbol)),
    (∀ next ∈ rest, ∃ o : Operator Symbol, o.token = next.1 ∧ o.inBody i ∈ body.alternatives) →
    ∃ tree, Grouping.group (Disambiguation.tieIn tables i) i body.alternatives first rest
        = some tree
      ∧ tree.Ordered i body.alternatives
      ∧ tree.tokens = first :: rest.flatMap fun next => [next.1, next.2]

theorem groupsOperators_tables {n : NormalForm} {i : Nat} {v : Variable}
    (lookup : n.vars[i]? = some v) :
    GroupsOperators (Disambiguation.tables n) i v.body :=
  fun first _ known => exists_group (Disambiguation.settlesOperators_tables lookup) first known

end Productions
