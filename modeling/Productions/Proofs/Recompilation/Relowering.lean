import Productions.Proofs.Recompilation.Reentry

/-! The names and tokens of the written grammar. They are lowered to the symbols they were written
for, and enter what those symbols read. -/
namespace Productions

open NormalForm

namespace Naming

variable {n : Naming} {content : Rule}

theorem innerReports_of_closed (closed : content.Closed) (owner : String) :
    n.innerReports owner content = [] :=
  TokenContent.reports_of_closed closed

end Naming

namespace LexicalEntry

variable {n : Naming} {entry : LexicalEntry} (closed : entry.content.Closed)
  (canonical : entry.content.Canonical)

include closed

theorem silent_toRule : n.Silent entry.toRule := by
  unfold toRule
  split
  · split
    · exact fun owner => Naming.innerReports_of_closed (.terminal _) owner
    · trivial
  · exact fun owner => Naming.innerReports_of_closed closed owner

omit closed in
theorem resolves_toRule : n.Resolves entry.toRule := by
  unfold toRule
  split
  · split <;> trivial
  · trivial

include canonical

theorem enter_toRule (inside : entry.Inside n) (owner : String) (L : Lexicon) :
    n.enter owner L entry.toRule
      = (L.internAnonymous entry.content entry.immediate owner).2 := by
  unfold toRule
  split <;> rename_i content
  · split <;> rename_i immediate
    · rw [Naming.enter, Naming.innerContent_eq_self (.terminal _) (.terminal _), content, immediate]
    · have flag : entry.immediate = false := by simpa using immediate
      rw [Naming.enter, inside _ flag content, content, flag]
      rfl
  · rw [Naming.enter, Naming.innerContent_eq_self closed canonical]

end LexicalEntry

namespace CompiledGrammar

section Restorable

variable {c : CompiledGrammar} (arranged : c.Arranged) (restorable : c.Restorable)

include arranged restorable

section Named

variable {id : Nat} {entry : LexicalEntry} (found : c.lexicon[id]? = some entry)
  (named : entry.named = true)

include found named

theorem tokenBody_of_entry :
    (c.toGrammar.naming c.start).tokenBody entry.name = (entry.content, entry.immediate)
      ∧ entry.content.Canonical := by
  obtain ⟨info, get, body⟩ := arranged.exists_of_entry found named
  have bodyOf := bodyOf_eq_body arranged restorable get
  have canonical := (canonical_body arranged restorable (SymbolTable.mem_infos.2 ⟨_, get⟩)).1
  rw [body] at bodyOf canonical
  refine ⟨?_, LexicalEntry.canonical_content canonical⟩
  rw [Naming.bodyOf] at bodyOf
  rw [Naming.tokenBody, bodyOf, LexicalEntry.split_toRule]

theorem enterNamed_of_entry (L : Lexicon) :
    (c.toGrammar.naming c.start).enterNamed L entry.name
      = (L.internNamed entry.name entry.content entry.immediate).2 := by
  obtain ⟨body, canonical⟩ := tokenBody_of_entry arranged restorable found named
  have closed := arranged.closed entry (List.mem_of_getElem? found)
  rw [Naming.enterNamed, Naming.namedContent, body, TokenContent.of_eq_self closed,
    canonical.canonicalize_eq]

theorem namedReports_of_entry : (c.toGrammar.naming c.start).namedReports entry.name = [] := by
  obtain ⟨body, -⟩ := tokenBody_of_entry arranged restorable found named
  rw [Naming.namedReports, body]
  exact TokenContent.reports_of_closed (arranged.closed entry (List.mem_of_getElem? found))

end Named

theorem exists_entry_of_token {name : String}
    (kind : c.toGrammar.table.kind? name = some .token) :
    ∃ (id : Nat) (entry : LexicalEntry), c.lexicon[id]? = some entry ∧ entry.named = true
      ∧ entry.name = name := by
  by_cases own : ∃ v ∈ c.vars, v.name = name
  · obtain ⟨v, mem, rfl⟩ := own
    rw [restorable.kinds v mem] at kind
    obtain ⟨id, entry, -, found, named, same⟩ := arranged.tokens v mem (Option.some.inj kind)
    exact ⟨id, entry, found, named, same⟩
  · by_contra absent
    have unknown := Arranged.kind?_eq_none (fun v mem same => own ⟨v, mem, same⟩)
      (fun entry mem named same => by
        obtain ⟨id, found⟩ := List.getElem?_of_mem mem
        exact absent ⟨id, entry, found, named, same⟩)
    rw [unknown] at kind
    cases kind

theorem namedReports_eq_nil {name : String}
    (kind : c.toGrammar.table.kind? name = some .token) :
    (c.toGrammar.naming c.start).namedReports name = [] := by
  obtain ⟨id, entry, found, named, rfl⟩ := exists_entry_of_token arranged restorable kind
  exact namedReports_of_entry arranged restorable found named

/-- The rule of a symbol enters what the symbol reads. -/
theorem enter_symbolRule {s : Symbol} (stands : c.Stands s) (owner : String) (L : Lexicon) :
    (c.toGrammar.naming c.start).enter owner L (c.symbolRule s)
      = Lexicon.read c.lexicon owner L s := by
  cases stands with
  | @rule id v found visible =>
    have known := get?_variable arranged restorable.kinds found
    rw [symbolRule_rule found, Naming.enter, Naming.enterName, known,
      if_neg (by rintro ⟨absent, -⟩; cases absent), Lexicon.read]
  | @named id entry found named apart =>
    have absent := get?_eq_none_of_apart arranged restorable.kinds apart
    have kind := arranged.kind?_of_entry restorable.kinds found named
    rw [symbolRule_named found named, Naming.enter, Naming.enterName, if_pos ⟨absent, kind⟩,
      enterNamed_of_entry arranged restorable found named, Lexicon.read, found]
    exact (if_pos named).symm
  | @anonymous id entry found unnamed =>
    rw [symbolRule_anonymous found unnamed,
      LexicalEntry.enter_toRule (arranged.closed _ (List.mem_of_getElem? found))
        (restorable.contents _ (List.mem_of_getElem? found))
        (inside_of_anonymous restorable found unnamed), Lexicon.read, found]
    exact (if_neg (by simp [unnamed])).symm
  | @outside id token found last apart =>
    have place := last _ (naming_externals c.start)
    rw [symbolRule_outside found, Lexicon.read]
    split <;> rename_i named
    · obtain ⟨vars, entries⟩ := apart named
      have unknown := Arranged.kind?_eq_none vars entries
      rw [Naming.enter, Naming.enterName, if_neg]
      rintro ⟨-, kind⟩
      rw [show (c.toGrammar.naming c.start).table.kind? token.name = none from unknown] at kind
      cases kind
    · have flag : token.named = false := by simpa using named
      rw [flag] at place
      rw [Naming.enter, if_pos]
      rw [Naming.outside?, place]
      rfl

theorem silent_symbolRule {s : Symbol} (stands : c.Stands s) :
    (c.toGrammar.naming c.start).Silent (c.symbolRule s) := by
  have names (name : String) : (c.toGrammar.naming c.start).Silent (.symbol name) :=
    fun kind => namedReports_eq_nil arranged restorable kind
  cases stands with
  | @rule id v found => exact symbolRule_rule found ▸ names _
  | @named id entry found named => exact symbolRule_named found named ▸ names _
  | @anonymous id entry found unnamed =>
    rw [symbolRule_anonymous found unnamed]
    exact LexicalEntry.silent_toRule (arranged.closed _ (List.mem_of_getElem? found))
  | @outside id token found =>
    rw [symbolRule_outside found]
    split
    · exact names _
    · trivial

theorem resolves_symbolRule {s : Symbol} (stands : c.Stands s) :
    (c.toGrammar.naming c.start).Resolves (c.symbolRule s) := by
  cases stands with
  | @rule id v found =>
    rw [symbolRule_rule found]
    exact .inl (by rw [get?_variable arranged restorable.kinds found]; rfl)
  | @named id entry found named =>
    rw [symbolRule_named found named]
    exact .inr (.inl (arranged.kind?_of_entry restorable.kinds found named))
  | @anonymous id entry found unnamed =>
    rw [symbolRule_anonymous found unnamed]
    exact LexicalEntry.resolves_toRule
  | @outside id token found last apart =>
    have place := last _ (naming_externals c.start)
    rw [symbolRule_outside found]
    split <;> rename_i named
    · obtain ⟨vars, entries⟩ := apart named
      rw [named] at place
      exact .inr (.inr ⟨Arranged.kind?_eq_none vars entries, by rw [place]; rfl⟩)
    · trivial

end Restorable

end CompiledGrammar

end Productions
