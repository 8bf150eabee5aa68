import Productions.Proofs.Normal.Structure

/-! Where anonymous entries come from. Each one is needed by a leaf: of the body of a variable, of
an extra, or of a hidden rule that is expanded. -/
namespace Productions

namespace Naming

/-- An anonymous entry is what a leaf needs. -/
def Sources (n : Naming) (leaf : Rule) (entry : LexicalEntry) : Prop :=
  match leaf with
  | .terminal t => n.outside? t = none ∧ entry.content = .terminal t ∧ entry.immediate = false
  | .token content immediate => entry.content = n.innerContent content ∧ entry.immediate = immediate
  | _ => False

def Sourced (n : Naming) (isSource : Rule → Prop) (L : Lexicon) : Prop :=
  ∀ entry ∈ L.entries, entry.named = false → ∃ leaf, isSource leaf ∧ n.Sources leaf entry

variable {n : Naming} {isSource : Rule → Prop} {L : Lexicon}

theorem sourced_internAnonymous (h : n.Sourced isSource L) {leaf content : Rule}
    {immediate : Bool} (known : isSource leaf)
    (source : ∀ name, n.Sources leaf ⟨name, false, content, immediate⟩) (owner : String) :
    n.Sourced isSource (L.internAnonymous content immediate owner).2 := by
  rcases Lexicon.internAnonymous_cases L content immediate owner
    with ⟨id, -, same⟩ | ⟨-, -, name, added⟩
  · rw [same]
    exact h
  · intro entry mem unnamed
    rw [added, List.mem_append, List.mem_singleton] at mem
    rcases mem with mem | rfl
    · exact h entry mem unnamed
    · exact ⟨leaf, known, source name⟩

theorem sourced_enterNamed (h : n.Sourced isSource L) (name : String) :
    n.Sourced isSource (n.enterNamed L name) := by
  rw [enterNamed]
  cases found : L.findNamed? name with
  | some id =>
    rw [Lexicon.internNamed_of_known found]
    exact h
  | none =>
    rw [Lexicon.internNamed_of_new found]
    intro entry mem unnamed
    rcases List.mem_append.1 mem with mem | mem
    · exact h entry mem unnamed
    · rw [List.mem_singleton.1 mem] at unnamed
      cases unnamed

theorem sourced_enterName (h : n.Sourced isSource L) (name : String) :
    n.Sourced isSource (n.enterName L name) := by
  rw [enterName]
  split
  · exact sourced_enterNamed h name
  · exact h

theorem sourced_enter (h : n.Sourced isSource L) {leaf : Rule} (known : isSource leaf)
    (owner : String) : n.Sourced isSource (n.enter owner L leaf) := by
  cases leaf with
  | terminal t =>
    rw [enter]
    split <;> rename_i outside
    · exact h
    · have inside : n.outside? t = none := by simpa using outside
      exact sourced_internAnonymous h known (fun name => ⟨inside, rfl, rfl⟩) owner
  | token content immediate => exact sourced_internAnonymous h known (fun name => ⟨rfl, rfl⟩) owner
  | symbol name => exact sourced_enterName h name
  | _ => exact h

theorem sourced_foldl {α : Type} {step : Lexicon → α → Lexicon} {as : List α}
    (h : n.Sourced isSource L)
    (each : ∀ a ∈ as, ∀ L, n.Sourced isSource L → n.Sourced isSource (step L a)) :
    n.Sourced isSource (as.foldl step L) := by
  induction as generalizing L with
  | nil => exact h
  | cons a as ih => exact ih (each a (by simp) L h) fun b hb => each b (by simp [hb])

theorem sourced_enterAll (h : n.Sourced isSource L) {leaves : List Rule}
    (known : ∀ leaf ∈ leaves, isSource leaf) (owner : String) :
    n.Sourced isSource (n.enterAll owner L leaves) :=
  sourced_foldl h fun leaf mem _ h => sourced_enter h (known leaf mem) owner

end Naming

namespace NormalForm

open Naming

variable {g : Grammar} {t : SymbolTable} {start : String}

def IsSource (g : Grammar) (t : SymbolTable) (start : String) (leaf : Rule) : Prop :=
  (∃ info ∈ keptRules t start, info.kind ≠ .token
      ∧ leaf ∈ ((namingOf g t start).bodyOf info.name).leaves)
    ∨ (∃ extra ∈ (extrasRun g t).1, leaf ∈ extra.leaves)
    ∨ ∃ info ∈ expandedInfos start t.infos, leaf ∈ ((namingOf g t start).bodyOf info.name).leaves

theorem sourced_lexiconOf (keyed : t.Keyed) (quiet : (extrasRun g t).2.reports = []) :
    (namingOf g t start).Sourced (IsSource g t start) (lexiconOf g t start) := by
  have bodies {L : Lexicon} (h : (namingOf g t start).Sourced (IsSource g t start) L) :=
    sourced_foldl h fun info (mem : info ∈ keptRules t start) L h => by
      show (namingOf g t start).Sourced _ ((namingOf g t start).enterBody L info)
      rw [enterBody]
      split <;> rename_i kind
      · exact sourced_enterNamed h info.name
      · exact sourced_enterAll h (fun leaf hl => .inl ⟨info, mem, kind, hl⟩) info.name
  have extras {L : Lexicon} (h : (namingOf g t start).Sourced (IsSource g t start) L) :=
    sourced_foldl h fun extra (mem : extra ∈ (extrasRun g t).1) L h => by
      show (namingOf g t start).Sourced _ ((namingOf g t start).enterExtra L extra)
      exact sourced_enterAll h (fun leaf hl => .inr (.inl ⟨extra, mem, hl⟩)) "extras"
  have word {L : Lexicon} (h : (namingOf g t start).Sourced (IsSource g t start) L) :
      (namingOf g t start).Sourced (IsSource g t start)
        ((namingOf g t start).enterWord g.word L) := by
    cases g.word with
    | none => exact h
    | some name => exact sourced_enterName h name
  have tokens {L : Lexicon} (h : (namingOf g t start).Sourced (IsSource g t start) L) :=
    sourced_foldl h fun info (_ : info ∈ t.infos) L h => by
      show (namingOf g t start).Sourced _ ((namingOf g t start).enterToken L info)
      rw [enterToken]
      split
      · exact sourced_enterNamed h info.name
      · exact h
  have hidden {L : Lexicon} (h : (namingOf g t start).Sourced (IsSource g t start) L) :=
    sourced_foldl h fun info (mem : info ∈ expandedInfos start t.infos) L h => by
      show (namingOf g t start).Sourced _ ((namingOf g t start).enterHidden L info)
      exact sourced_enterAll h (fun leaf hl => .inr (.inr ⟨info, mem, hl⟩)) info.name
  rw [lexiconOf, (enters_partsRun keyed quiet).lexicon]
  have start : (namingOf g t start).Sourced (IsSource g t start) ∅ := by
    intro entry mem
    cases mem
  exact hidden (tokens (word (extras (bodies start))))

end NormalForm

end Productions
