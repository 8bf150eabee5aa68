import Productions.Precedence.Resolution
import Productions.Proofs.Lowering.Entries

/-! Lexical tables as readings. Lowering a rule enters what its symbols stand for, from left to
right, so the table up to some point is what the symbols up to there make of the finished one. -/
namespace Productions

namespace Expr

theorem symbols_makeSeq (es : List Expr) : (makeSeq es).symbols = symbolsAll es := by
  have parts (e : Expr) : symbolsAll e.seqParts = e.symbols := by
    cases e <;> simp [seqParts, symbols, symbolsAll]
  have flat : symbolsAll (es.flatMap seqParts) = symbolsAll es := by
    induction es with
    | nil => rfl
    | cons e es ih =>
      rw [List.flatMap_cons, symbolsAll_eq_flatMap, List.flatMap_append, ← symbolsAll_eq_flatMap,
        ← symbolsAll_eq_flatMap, parts, ih, symbolsAll]
  unfold makeSeq
  split
  · rename_i e one
    rw [← flat, one, symbolsAll, symbolsAll, List.append_nil]
  · exact flat

theorem symbolsAll_append (es fs : List Expr) :
    symbolsAll (es ++ fs) = symbolsAll es ++ symbolsAll fs := by
  simp [symbolsAll_eq_flatMap]

theorem symbolsAll_choiceParts (es : List Expr) :
    symbolsAll (es.flatMap choiceParts) = symbolsAll es := by
  induction es with
  | nil => rfl
  | cons e es ih =>
    rw [List.flatMap_cons, symbolsAll_append, ih, symbolsAll]
    cases e <;> simp [choiceParts, symbols, symbolsAll]

theorem mem_symbols_makeChoice {es : List Expr} {s : Symbol} :
    s ∈ (makeChoice es).symbols ↔ s ∈ symbolsAll es := by
  have kept : s ∈ symbolsAll (OrderedSet.ofList (es.flatMap choiceParts)).toList
      ↔ s ∈ symbolsAll es := by
    rw [← symbolsAll_choiceParts es, symbolsAll_eq_flatMap, symbolsAll_eq_flatMap]
    simp only [List.mem_flatMap, OrderedSet.mem_toList, OrderedSet.mem_ofList]
  rw [← kept]
  unfold makeChoice
  split
  · rename_i e one
    rw [one, symbolsAll, symbolsAll, List.append_nil]
  · exact Iff.rfl

end Expr

namespace Lexicon

variable {R : List LexicalEntry} {owner : String} {L L' : Lexicon} {s : Symbol}

def read (R : List LexicalEntry) (owner : String) (L : Lexicon) : Symbol → Lexicon
  | .lexical id =>
    match R[id]? with
    | some entry =>
      if entry.named then (L.internNamed entry.name entry.content entry.immediate).2
      else (L.internAnonymous entry.content entry.immediate owner).2
    | none => L
  | .rule _ | .external _ => L

def readAll (R : List LexicalEntry) (owner : String) (L : Lexicon) (symbols : List Symbol) :
    Lexicon :=
  symbols.foldl (read R owner) L

theorem readAll_append (symbols more : List Symbol) :
    readAll R owner L (symbols ++ more) = readAll R owner (readAll R owner L symbols) more :=
  List.foldl_append

def Holds (R : List LexicalEntry) (L : Lexicon) : Symbol → Prop
  | .lexical id => ∀ entry, R[id]? = some entry →
    if entry.named then (L.findNamed? entry.name).isSome
    else (L.findAnonymous? entry.content entry.immediate).isSome
  | .rule _ | .external _ => True

theorem prefix_internNamed (L : Lexicon) (name : String) (content : Rule) (immediate : Bool) :
    L.entries <+: (L.internNamed name content immediate).2.entries := by
  unfold internNamed
  split
  · exact List.prefix_rfl
  · exact List.prefix_append _ _

theorem isSome_findNamed?_internNamed (L : Lexicon) (name : String) (content : Rule)
    (immediate : Bool) : ((L.internNamed name content immediate).2.findNamed? name).isSome := by
  cases found : L.findNamed? name with
  | some id =>
    rw [internNamed, found]
    exact Option.isSome_iff_exists.2 ⟨id, found⟩
  | none =>
    rw [findNamed?_internNamed found]
    rfl

theorem prefix_read (R : List LexicalEntry) (owner : String) (L : Lexicon) (s : Symbol) :
    L.entries <+: (read R owner L s).entries := by
  cases s with
  | rule | external => exact List.prefix_rfl
  | lexical id =>
    cases found : R[id]? with
    | none =>
      rw [read, found]
    | some entry =>
      rw [read, found]
      dsimp only
      split
      · exact prefix_internNamed _ _ _ _
      · exact prefix_internAnonymous _ _ _ _

theorem prefix_readAll (R : List LexicalEntry) (owner : String) (L : Lexicon)
    (symbols : List Symbol) : L.entries <+: (readAll R owner L symbols).entries :=
  Naming.prefix_foldl (prefix_read R owner) L symbols

theorem Holds.of_grown (h : Holds R L s) (grown : L.entries <+: L'.entries) : Holds R L' s := by
  cases s with
  | rule | external => trivial
  | lexical id =>
    intro entry found
    have before := h entry found
    split at before <;> rename_i named
    · obtain ⟨place, found⟩ := Option.isSome_iff_exists.1 before
      rw [if_pos named, findNamed?_of_grown grown found]
      rfl
    · obtain ⟨place, found⟩ := Option.isSome_iff_exists.1 before
      rw [if_neg named, findAnonymous?_of_grown grown found]
      rfl

theorem holds_read (R : List LexicalEntry) (owner : String) (L : Lexicon) (s : Symbol) :
    Holds R (read R owner L s) s := by
  cases s with
  | rule | external => trivial
  | lexical id =>
    intro entry found
    rw [read, found]
    dsimp only
    by_cases named : entry.named = true
    · rw [if_pos named, if_pos named]
      exact isSome_findNamed?_internNamed _ _ _ _
    · rw [if_neg named, if_neg named, findAnonymous?_internAnonymous]
      rfl

theorem read_of_holds (h : Holds R L s) : read R owner L s = L := by
  cases s with
  | rule | external => rfl
  | lexical id =>
    cases entry : R[id]? with
    | none => rw [read, entry]
    | some entry' =>
      have before := h entry' entry
      rw [read, entry]
      dsimp only
      split at before <;> rename_i named
      · obtain ⟨place, found⟩ := Option.isSome_iff_exists.1 before
        rw [if_pos named, internNamed_of_known found]
      · obtain ⟨place, found⟩ := Option.isSome_iff_exists.1 before
        rw [if_neg named, internAnonymous_of_known found]

theorem readAll_of_holds {symbols : List Symbol} (h : ∀ s ∈ symbols, Holds R L s) :
    readAll R owner L symbols = L := by
  induction symbols with
  | nil => rfl
  | cons s symbols ih =>
    rw [readAll, List.foldl_cons, read_of_holds (h s (by simp))]
    exact ih fun t ht => h t (by simp [ht])

theorem holds_of_mem {symbols : List Symbol} (mem : s ∈ symbols) :
    Holds R (readAll R owner L symbols) s := by
  induction symbols generalizing L with
  | nil => cases mem
  | cons t symbols ih =>
    rcases List.mem_cons.1 mem with rfl | mem
    · exact (holds_read R owner L s).of_grown (prefix_readAll R owner _ symbols)
    · exact ih mem

/-- Leaving out equal alternatives leaves the reading as it is. -/
theorem readAll_insertAll (seen : OrderedSet Expr) (es : List Expr) :
    readAll R owner L (Expr.symbolsAll (seen.insertAll es).toList)
      = readAll R owner L (Expr.symbolsAll (seen.toList ++ es)) := by
  induction es generalizing seen with
  | nil => simp [OrderedSet.insertAll]
  | cons e es ih =>
    rw [OrderedSet.insertAll, List.foldl_cons]
    refine (ih (seen.insert e)).trans ?_
    rw [OrderedSet.toList_insert]
    split <;> rename_i known
    · have held : ∀ s ∈ e.symbols, Holds R (readAll R owner L (Expr.symbolsAll seen.toList)) s := by
        intro s hs
        refine holds_of_mem ?_
        rw [Expr.symbolsAll_eq_flatMap]
        exact List.mem_flatMap.2 ⟨e, known, hs⟩
      rw [Expr.symbolsAll_append, Expr.symbolsAll_append, Expr.symbolsAll, readAll_append,
        readAll_append, readAll_append, readAll_of_holds held]
    · rw [List.append_assoc, List.singleton_append]

theorem readAll_makeChoice (es : List Expr) :
    readAll R owner L (Expr.makeChoice es).symbols = readAll R owner L (Expr.symbolsAll es) := by
  have parts : readAll R owner L
      (Expr.symbolsAll (OrderedSet.ofList (es.flatMap Expr.choiceParts)).toList)
      = readAll R owner L (Expr.symbolsAll es) := by
    rw [OrderedSet.ofList, readAll_insertAll, OrderedSet.toList_empty, List.nil_append,
      Expr.symbolsAll_choiceParts]
  unfold Expr.makeChoice
  split
  · rename_i e one
    rw [← parts, one, Expr.symbolsAll, Expr.symbolsAll, List.append_nil]
  · exact parts

end Lexicon

end Productions
