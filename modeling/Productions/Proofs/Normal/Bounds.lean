import Mathlib.Data.List.Count
import Productions.Normal.OfGrammar

/-! The bounds on the searches of normalization. A search keeps the rules it is in and goes down
only to a rule that is none of these. So there are ever fewer rules left, and the bound, which is
larger than the number of rules, is not met: the search does what it would do without any bound. -/
namespace Productions

namespace OrderedMap

variable {κ α : Type} [DecidableEq κ] {m : OrderedMap κ α} {seen : List κ} {k : κ}

def unseen (m : OrderedMap κ α) (seen : List κ) : Nat :=
  m.keys.countP fun k => decide (k ∉ seen)

theorem unseen_le_size (m : OrderedMap κ α) (seen : List κ) : m.unseen seen ≤ m.size := by
  have bound : m.unseen seen ≤ m.keys.length := List.countP_le_length
  rwa [keys, List.length_map] at bound

theorem unseen_append_lt (known : k ∈ m.keys) (apart : k ∉ seen) :
    m.unseen (seen ++ [k]) < m.unseen seen := by
  let left := m.keys.filter fun j => decide (j ∉ seen)
  have split : m.unseen (seen ++ [k]) = left.countP fun j => decide (j ≠ k) := by
    rw [unseen, List.countP_filter]
    refine congrArg (List.countP · m.keys) (funext fun j => ?_)
    simp [not_or, Bool.and_comm]
  calc m.unseen (seen ++ [k])
    _ = left.countP fun j => decide (j ≠ k) := split
    _ < left.length := List.countP_lt_length_iff.2
      ⟨k, List.mem_filter.2 ⟨known, by simpa using apart⟩, by simp⟩
    _ = m.unseen seen := List.countP_eq_length_filter.symm

end OrderedMap

namespace TokenContent

variable {t : SymbolTable} {bodies : OrderedMap String Rule} {chain : List String} {name : String}

theorem unseen_lt_of_usable? {body : Rule} (usable : usable? t bodies chain name = some body) :
    bodies.unseen (chain ++ [name]) < bodies.unseen chain := by
  rw [usable?, Option.ite_none_right_eq_some] at usable
  obtain ⟨allowed, get⟩ := usable
  have apart : name ∉ chain := by simpa using (Bool.and_eq_true_iff.1 allowed).2
  exact OrderedMap.unseen_append_lt (OrderedMap.get?_isSome_iff.1 (by rw [get]; rfl)) apart

theorem replacement_eq_of_lt : (fuel fuel' : Nat) → {chain : List String} →
    bodies.unseen chain < fuel → bodies.unseen chain < fuel' →
    replacement t bodies fuel chain = replacement t bodies fuel' chain
  | 0, _, _, enough, _ | _, 0, _, _, enough => absurd enough (Nat.not_lt_zero _)
  | fuel + 1, fuel' + 1, chain, enough, enough' => by
    funext name
    rw [replacement, replacement]
    cases usable : usable? t bodies chain name with
    | none => rfl
    | some body =>
      have fewer := unseen_lt_of_usable? usable
      dsimp only
      rw [replacement_eq_of_lt fuel fuel' (by omega) (by omega)]

theorem referenceReports_eq_of_lt {owner : String} : (fuel fuel' : Nat) → {chain : List String} →
    bodies.unseen chain < fuel → bodies.unseen chain < fuel' →
    referenceReports t bodies owner fuel chain = referenceReports t bodies owner fuel' chain
  | 0, _, _, enough, _ | _, 0, _, _, enough => absurd enough (Nat.not_lt_zero _)
  | fuel + 1, fuel' + 1, chain, enough, enough' => by
    funext name
    rw [referenceReports, referenceReports]
    split
    · rename_i allowed
      cases get : bodies.get? name with
      | none => rfl
      | some body =>
        have usable : usable? t bodies chain name = some body := by
          rw [usable?, if_pos allowed, get]
        have fewer := unseen_lt_of_usable? usable
        dsimp only
        rw [referenceReports_eq_of_lt fuel fuel' (by omega) (by omega)]
    · rfl

end TokenContent

namespace Inlining

variable {t : SymbolTable}

theorem expansion_eq_of_lt : (fuel fuel' : Nat) → {stack : List String} →
    t.rules.unseen stack < fuel → t.rules.unseen stack < fuel' →
    expansion t fuel stack = expansion t fuel' stack
  | 0, _, _, enough, _ | _, 0, _, _, enough => absurd enough (Nat.not_lt_zero _)
  | fuel + 1, fuel' + 1, stack, enough, enough' => by
    funext name
    rw [expansion, expansion]
    refine bind_congr fun s => ?_
    cases s.expanded.get? name with
    | some known => rfl
    | none =>
      dsimp only
      split
      · rfl
      · rename_i looped
        cases get : t.get? name with
        | none => rfl
        | some info =>
          have apart : name ∉ stack := by simpa using looped
          have known : name ∈ t.rules.keys :=
            OrderedMap.get?_isSome_iff.1 (by rw [← SymbolTable.get?, get]; rfl)
          have fewer := OrderedMap.unseen_append_lt known apart
          rw [expansion_eq_of_lt fuel fuel' (by omega) (by omega)]

end Inlining

end Productions
