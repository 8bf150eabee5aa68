import Productions.Proofs.Fields.Counts

/-! The nodes that a field holds. A field is counted by its brackets, whatever stands between them:
where each bracket has at most one node, the nodes under a field are no more than its brackets, and
where one bracket has several, they go unnoticed unless there is another bracket. -/
namespace Productions

namespace ParseTree

variable {α : Type} {name : String}

mutual

def nodes : ParseTree α → Nat
  | leaf _ | around (.aliased _ _) _ => 1
  | around (.prec _ _) inner | around (.field _) inner | token _ inner => nodesAll inner

def nodesAll : List (ParseTree α) → Nat
  | [] => 0
  | t :: ts => nodes t + nodesAll ts

end

mutual

/-- The nodes under brackets of a field, each once; `under` tells whether the tree itself stands
under one. What an alias renames stands under the brackets inside the alias only. -/
def held (name : String) (under : Bool) : ParseTree α → Nat
  | leaf _ => under.toNat
  | around (.aliased _ _) inner => under.toNat + heldAll name false inner
  | around (.field n) inner => heldAll name (under || n == name) inner
  | around (.prec _ _) inner | token _ inner => heldAll name under inner

def heldAll (name : String) (under : Bool) : List (ParseTree α) → Nat
  | [] => 0
  | t :: ts => held name under t + heldAll name under ts

end

mutual

def crowded (name : String) : ParseTree α → Prop
  | leaf _ => False
  | around b inner => b = .field name ∧ 2 ≤ nodesAll inner ∨ crowdedAll name inner
  | token _ inner => crowdedAll name inner

def crowdedAll (name : String) : List (ParseTree α) → Prop
  | [] => False
  | t :: ts => crowded name t ∨ crowdedAll name ts

end

mutual

/-- Under a bracket all nodes are held. -/
theorem nodes_le_held : (t : ParseTree α) → nodes t ≤ held name true t
  | leaf _ => Nat.le_refl 1
  | around (.aliased _ _) _ => Nat.le_add_right 1 _
  | around (.prec _ _) inner | token _ inner => nodesAll_le_heldAll inner
  | around (.field _) inner => nodesAll_le_heldAll inner

theorem nodesAll_le_heldAll : (f : List (ParseTree α)) → nodesAll f ≤ heldAll name true f
  | [] => Nat.le_refl 0
  | t :: ts => Nat.add_le_add (nodes_le_held t) (nodesAll_le_heldAll ts)

end

mutual

/-- Without a crowded bracket each bracket holds at most one node, and a tree that stands under
a bracket adds its own nodes. -/
theorem held_le : (t : ParseTree α) → ¬crowded name t → (under : Bool) →
    held name under t ≤ brackets (.field name) t + if under then nodes t else 0
  | leaf _, _, under => by
    rw [held, nodes, brackets, Nat.zero_add]
    cases under <;> exact Nat.le_refl _
  | token _ inner, sparse, under => heldAll_le inner sparse under
  | around (.prec _ _) inner, sparse, under => by
    have inside := heldAll_le inner (fun h => sparse (.inr h)) under
    rwa [held, brackets, nodes, if_neg Bracket.noConfusion, Nat.zero_add]
  | around (.aliased _ _) inner, sparse, under => by
    have inside := heldAll_le inner (fun h => sparse (.inr h)) false
    rw [held, brackets, nodes, if_neg Bracket.noConfusion, Nat.zero_add]
    rw [if_neg Bool.false_ne_true, Nat.add_zero] at inside
    cases under <;> simp only [Bool.toNat_true, Bool.toNat_false, if_true, if_false,
      Bool.false_eq_true] <;> omega
  | around (.field n) inner, sparse, under => by
    have inside := heldAll_le inner (fun h => sparse (.inr h)) (under || n == name)
    rw [held, brackets, nodes]
    by_cases same : n = name
    · have single : nodesAll inner ≤ 1 := by
        by_contra several
        exact sparse (.inl ⟨congrArg _ same, Nat.not_le.1 several⟩)
      rw [same, beq_self_eq_true, Bool.or_true, if_pos rfl] at inside ⊢
      omega
    · rw [beq_false_of_ne same, Bool.or_false] at inside ⊢
      rwa [if_neg (fun h => same (Bracket.field.inj h)), Nat.zero_add]

theorem heldAll_le : (f : List (ParseTree α)) → ¬crowdedAll name f → (under : Bool) →
    heldAll name under f ≤ bracketsAll (.field name) f + if under then nodesAll f else 0
  | [], _, _ => Nat.zero_le _
  | t :: ts, sparse, under => by
    have head := held_le t (fun h => sparse (.inl h)) under
    have tail := heldAll_le ts (fun h => sparse (.inr h)) under
    rw [heldAll, bracketsAll, nodesAll]
    cases under <;> simp only [if_true, if_false, Bool.false_eq_true] at head tail ⊢ <;> omega

end

mutual

theorem two_le_held : (t : ParseTree α) → crowded name t → (under : Bool) → 2 ≤ held name under t
  | around (.prec _ _) inner, crowd, under => by
    obtain ⟨field, -⟩ | inside := crowd
    · cases field
    · exact two_le_heldAll inner inside under
  | around (.aliased _ _) inner, crowd, under => by
    obtain ⟨field, -⟩ | inside := crowd
    · cases field
    · exact (two_le_heldAll inner inside false).trans (Nat.le_add_left _ _)
  | around (.field n) inner, crowd, under => by
    obtain ⟨field, several⟩ | inside := crowd
    · have same : n = name := Bracket.field.inj field
      rw [held, same, beq_self_eq_true, Bool.or_true]
      exact several.trans (nodesAll_le_heldAll inner)
    · exact two_le_heldAll inner inside _
  | token _ inner, crowd, under => two_le_heldAll inner crowd under

theorem two_le_heldAll : (f : List (ParseTree α)) → crowdedAll name f → (under : Bool) →
    2 ≤ heldAll name under f
  | t :: _, .inl crowd, under => (two_le_held t crowd under).trans (Nat.le_add_right _ _)
  | _ :: ts, .inr crowd, under => (two_le_heldAll ts crowd under).trans (Nat.le_add_left _ _)

end

end ParseTree

open ParseTree (heldAll crowdedAll)

namespace Variable

variable (v : Variable) (name : String)

def SaysMultiple : Prop := ∃ info, v.fields.get? name = some info ∧ info.multiple = true

/-- The variable says of a field under which some derivation has more than one node that it holds
more than one. -/
def CoversNodes : Prop :=
  ∀ forest, v.body.Grows forest → 2 ≤ heldAll name false forest → v.SaysMultiple name

variable {v name}

theorem SaysMultiple.of_counted (counted : v.body.Counted v.fields) {n : Nat}
    (occurs : n ∈ v.body.occurrences name) (several : 2 ≤ n) : v.SaysMultiple name := by
  cases known : v.fields.get? name with
  | none =>
    have none := counted.absent known n occurs
    omega
  | some info =>
    refine ⟨info, known, ?_⟩
    by_contra once
    have single := counted.single known (Bool.eq_false_of_not_eq_true once) n occurs
    omega

/-- Exact fields cover all nodes of a field that has several brackets, and nothing more. -/
theorem coversNodes_iff (counted : v.body.Counted v.fields) : v.CoversNodes name
    ↔ v.SaysMultiple name ∨ ∀ forest, v.body.Grows forest → ¬crowdedAll name forest := by
  constructor
  · intro covers
    by_cases multiple : v.SaysMultiple name
    · exact .inl multiple
    · exact .inr fun forest grows crowd =>
        multiple (covers forest grows (ParseTree.two_le_heldAll forest crowd false))
  · rintro (multiple | sparse) forest grows several
    · exact multiple
    · have bound := ParseTree.heldAll_le forest (sparse forest grows) false
      exact .of_counted counted ⟨forest, grows, rfl⟩ (several.trans (by simpa using bound))

end Variable

namespace Grammar

/-- A compiled variable covers the nodes of a field unless it says that the field holds at most one
and some derivation has two or more nodes within one bracket of the field. -/
theorem field_nodes_covered {g : Grammar} {settings : Settings} {c : CompiledGrammar}
    (compiled : g.compile settings = .ok c) {v : Variable} (mem : v ∈ c.vars) (name : String) :
    v.CoversNodes name
      ↔ v.SaysMultiple name ∨ ∀ forest, v.body.Grows forest → ¬crowdedAll name forest := by
  obtain ⟨start, h⟩ := compile_eq_ok compiled
  exact Variable.coversNodes_iff (h.counted mem)

/-- The arguments of a call have a bracket each, and the field says that there are several. -/
theorem field_nodes_covered_blockCalls : ∃ c, blockCalls.compile .default = .ok c
    ∧ ∃ v ∈ c.vars, v.CoversNodes "argument" := by
  obtain ⟨c, compiled, known⟩ : ∃ c, blockCalls.compile .default = .ok c
      ∧ (c.vars.head?.bind fun v => (v.fields.get? "argument").map FieldInfo.multiple)
        = some true := exists_ok_of_toOption_map (by cbv)
  obtain ⟨v, first, known⟩ := Option.bind_eq_some_iff.1 known
  have mem := List.mem_of_mem_head? (Option.mem_def.2 first)
  refine ⟨c, compiled, v, mem, ?_⟩
  exact (field_nodes_covered compiled mem "argument").2 (.inl (Option.map_eq_some_iff.1 known))

/-- Pairs of items, with one field around both. -/
def itemPairs : Grammar where
  name := "pairs"
  rules := [
    ⟨"pair", .field "items" (.seq [.symbol "item", .symbol "item"]), false⟩,
    ⟨"item", .terminal (.literal "n"), false⟩]
  extras := []
  precedences := []
  conflicts := []
  externals := []
  inlined := []
  supertypes := []
  word := none

/-- Both items stand under the one bracket of the field, which is said to hold one node at most. -/
theorem exists_uncovered_pair : ∃ c, itemPairs.compile .default = .ok c
    ∧ ∃ v ∈ c.vars, ¬v.CoversNodes "items" := by
  obtain ⟨c, compiled, parts⟩ : ∃ c, itemPairs.compile .default = .ok c
      ∧ (c.vars.map fun v => (v.body, (v.fields.get? "items").map FieldInfo.multiple))
        = [(.field "items" (.seq [.symbol (.lexical 0), .symbol (.lexical 0)]), some false)] :=
    exists_ok_of_toOption_map (by cbv)
  obtain ⟨v, only, same⟩ := List.map_eq_singleton_iff.1 parts
  simp only [Prod.mk.injEq] at same
  obtain ⟨body, single⟩ := same
  refine ⟨c, compiled, v, by simp [only], fun covers => ?_⟩
  have pair : v.body.Grows [.around (.field "items") [.leaf (.lexical 0), .leaf (.lexical 0)]] := by
    rw [body]
    exact .field (.seqCons .symbol (.seqCons .symbol .seqNil))
  obtain ⟨info, known, multiple⟩ := covers _ pair (by decide)
  rw [known, Option.map_some, multiple] at single
  cases single

end Grammar

end Productions
