import Productions.Compiled.Basic
import Productions.Validation.Checks

/-! Normal forms that agree on names, kinds and bodies. What is computed from a normal form when its
precedences are settled depends on nothing else. -/
namespace Productions

/-- A variable without its fields and without the names of what was expanded into it. -/
def Variable.shape (v : Variable) : String × SymbolKind × Expr := (v.name, v.kind, v.body)

namespace NormalForm

structure Agrees (m n : NormalForm) : Prop where
  shapes : m.vars.map Variable.shape = n.vars.map Variable.shape
  lexicon : m.lexicon = n.lexicon
  externals : m.externals = n.externals

namespace Agrees

variable {m n : NormalForm} (h : m.Agrees n)

include h

theorem bodies : m.bodies = n.bodies := by
  have bodies (vars : List Variable) :
      vars.map Variable.body = (vars.map Variable.shape).map fun s => s.2.2 := by
    rw [List.map_map]
    rfl
  rw [NormalForm.bodies, NormalForm.bodies, bodies, bodies, h.shapes]

theorem getElem?_vars (id : Nat) :
    m.vars[id]?.map Variable.shape = n.vars[id]?.map Variable.shape := by
  rw [← List.getElem?_map, h.shapes, List.getElem?_map]

theorem symbolName (s : Symbol) : m.symbolName s = n.symbolName s := by
  cases s with
  | rule id =>
    have name (vars : List Variable) :
        vars[id]?.map Variable.name = (vars[id]?.map Variable.shape).map Prod.fst := by
      rw [Option.map_map]
      rfl
    rw [NormalForm.symbolName, NormalForm.symbolName, name, name, h.getElem?_vars]
  | lexical id => rw [NormalForm.symbolName, NormalForm.symbolName, h.lexicon]
  | external id => rw [NormalForm.symbolName, NormalForm.symbolName, h.externals]

theorem symbolNamed (s : Symbol) : m.symbolNamed s = n.symbolNamed s := by
  cases s with
  | rule id =>
    have named (vars : List Variable) : (vars[id]?.any fun v => !v.isHidden)
        = (vars[id]?.map Variable.shape).any fun s => !(s.2.1 == .hidden) := by
      cases vars[id]? <;> rfl
    rw [NormalForm.symbolNamed, NormalForm.symbolNamed, named, named, h.getElem?_vars]
  | lexical id => rw [NormalForm.symbolNamed, NormalForm.symbolNamed, h.lexicon]
  | external id => rw [NormalForm.symbolNamed, NormalForm.symbolNamed, h.externals]

theorem nodeOf (s : Symbol) : m.nodeOf s = n.nodeOf s := by
  rw [NormalForm.nodeOf, NormalForm.nodeOf, h.symbolName, h.symbolNamed]

theorem nodes (e : Expr) : m.nodes e = n.nodes e := by
  have all (es : List Expr) (ih : ∀ e ∈ es, m.nodes e = n.nodes e) :
      m.nodesAll es = n.nodesAll es := by
    induction es with
    | nil => rfl
    | cons e es ihs =>
      rw [nodesAll, nodesAll, ih e (by simp), ihs fun f hf => ih f (by simp [hf])]
  induction e with
  | symbol s => rw [NormalForm.nodes, NormalForm.nodes, h.nodeOf]
  | aliased => rfl
  | seq members ih | choice members ih => exact all members ih
  | repeated _ ih | prec _ _ _ ih | field _ _ ih => exact ih

theorem fieldCounts (e : Expr) : m.fieldCounts e = n.fieldCounts e := by
  have each (es : List Expr) (ih : ∀ e ∈ es, m.fieldCounts e = n.fieldCounts e) :
      m.countsOfEach es = n.countsOfEach es := by
    induction es with
    | nil => rw [countsOfEach, countsOfEach]
    | cons e es ihs =>
      rw [countsOfEach, countsOfEach, ih e (by simp), ihs fun f hf => ih f (by simp [hf])]
  induction e with
  | symbol => rw [NormalForm.fieldCounts, NormalForm.fieldCounts]
  | seq members ih =>
    rw [NormalForm.fieldCounts, NormalForm.fieldCounts, sequenceCounts, sequenceCounts,
      each members ih]
  | choice members ih =>
    rw [NormalForm.fieldCounts, NormalForm.fieldCounts, each members ih]
  | repeated _ ih | prec _ _ _ ih | aliased _ _ _ ih =>
    rw [NormalForm.fieldCounts, NormalForm.fieldCounts, ih]
  | field name content ih =>
    rw [NormalForm.fieldCounts, NormalForm.fieldCounts, ih, h.nodes]

theorem fieldsOf (e : Expr) : m.fieldsOf e = n.fieldsOf e := by
  rw [NormalForm.fieldsOf, NormalForm.fieldsOf, h.fieldCounts]

theorem tables : Disambiguation.tables m = Disambiguation.tables n := by
  -- a table depends on the name and the body of its variable
  have shaped (g : NormalForm) : Disambiguation.tables g
      = (g.vars.map Variable.shape).zipIdx.filterMap fun s =>
          Disambiguation.ofVariable? (Disambiguation.unitClosure g.bodies)
            (Expr.symbolVerdict (fun _ => false)
              (Expr.nullableIds (fun _ => false) g.bodies).contains)
            ⟨s.1.1, s.1.2.1, s.1.2.2, [], ∅⟩ s.2 := by
    rw [List.zipIdx_map, List.filterMap_map]
    rfl
  rw [shaped, shaped, h.shapes, h.bodies]

theorem firstSets : FirstSets.ofNormalForm m = FirstSets.ofNormalForm n := by
  rw [FirstSets.ofNormalForm, FirstSets.ofNormalForm, h.lexicon, h.bodies]

end Agrees

end NormalForm

end Productions
