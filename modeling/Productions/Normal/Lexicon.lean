import Productions.Grammar.Basic
import Productions.Ordered.Map

/-! Every terminal of a grammar has an entry. Named entries come from token rules, one for each
name; anonymous ones from terminals and tokens inside rules, one for each content and immediate
flag. -/
namespace Productions

/-- A lexical unit. An immediate one follows the unit before it without anything between. -/
structure LexicalEntry where
  name : String
  named : Bool
  content : Rule
  immediate : Bool
  deriving DecidableEq

def LexicalEntry.literal? (entry : LexicalEntry) : Option String :=
  match entry.content with
  | .terminal (.literal text) => some text
  | _ => none

namespace LexicalEntry

def contentKey? (entry : LexicalEntry) : Option (Rule × Bool) :=
  if entry.named then none else some (entry.content, entry.immediate)

def nameKey? (entry : LexicalEntry) : Option String :=
  if entry.named then some entry.name else none

end LexicalEntry

/-- The entries, the numbers of anonymous and of named ones, and for each rule how many of its
anonymous entries got a made-up name. The numbers are kept in step with the entries. -/
@[ext] structure Lexicon where
  entries : List LexicalEntry
  anonymous : OrderedMap (Rule × Bool) Nat
  named : OrderedMap String Nat
  madeUp : OrderedMap String Nat
  anonymous_eq : anonymous = .firstPlaces LexicalEntry.contentKey? entries
  named_eq : named = .firstPlaces LexicalEntry.nameKey? entries

namespace Lexicon

def empty : Lexicon := ⟨[], ∅, ∅, ∅, rfl, rfl⟩

instance : EmptyCollection Lexicon := ⟨empty⟩
instance : Inhabited Lexicon := ⟨empty⟩

def size (lexicon : Lexicon) : Nat := lexicon.entries.length

def get? (lexicon : Lexicon) (id : Nat) : Option LexicalEntry := lexicon.entries[id]?

def findNamed? (lexicon : Lexicon) (name : String) : Option Nat := lexicon.named.get? name

def findAnonymous? (lexicon : Lexicon) (content : Rule) (immediate : Bool) : Option Nat :=
  lexicon.anonymous.get? (content, immediate)

theorem findNamed?_eq (lexicon : Lexicon) (name : String) : lexicon.findNamed? name
    = lexicon.entries.findIdx? fun entry => entry.named && entry.name == name := by
  rw [findNamed?, lexicon.named_eq, OrderedMap.get?_firstPlaces]
  congr 1
  funext entry
  rw [LexicalEntry.nameKey?]
  cases entry.named <;> simp [Bool.beq_eq_decide_eq]

theorem findAnonymous?_eq (lexicon : Lexicon) (content : Rule) (immediate : Bool) :
    lexicon.findAnonymous? content immediate = lexicon.entries.findIdx? fun entry =>
      !entry.named && entry.immediate == immediate && entry.content == content := by
  rw [findAnonymous?, lexicon.anonymous_eq, OrderedMap.get?_firstPlaces]
  congr 1
  funext entry
  rw [LexicalEntry.contentKey?]
  cases entry.named <;> simp [Bool.beq_eq_decide_eq, and_comm]

/-- The numbers are determined by the entries. -/
theorem eq_of_entries {lexicon other : Lexicon} (entries : lexicon.entries = other.entries)
    (madeUp : lexicon.madeUp = other.madeUp) : lexicon = other := by
  refine Lexicon.ext entries ?_ ?_ madeUp
  · rw [lexicon.anonymous_eq, other.anonymous_eq, entries]
  · rw [lexicon.named_eq, other.named_eq, entries]

def push (lexicon : Lexicon) (entry : LexicalEntry) : Nat × Lexicon :=
  (lexicon.size, { lexicon with
    entries := lexicon.entries ++ [entry]
    anonymous := lexicon.anonymous.note entry.contentKey? lexicon.size
    named := lexicon.named.note entry.nameKey? lexicon.size
    anonymous_eq := by rw [OrderedMap.firstPlaces_concat, lexicon.anonymous_eq, size]
    named_eq := by rw [OrderedMap.firstPlaces_concat, lexicon.named_eq, size] })

@[simp] theorem entries_push (lexicon : Lexicon) (entry : LexicalEntry) :
    (lexicon.push entry).2.entries = lexicon.entries ++ [entry] := rfl

/-- A single terminal is its own name; any other content is named after its owner and counted. -/
def internAnonymous (lexicon : Lexicon) (content : Rule) (immediate : Bool) (owner : String) :
    Nat × Lexicon :=
  match lexicon.findAnonymous? content immediate with
  | some id => (id, lexicon)
  | none =>
    match content with
    | .terminal (.literal text) => lexicon.push ⟨text, false, content, immediate⟩
    | .terminal (.pattern value _) => lexicon.push ⟨value, false, content, immediate⟩
    | _ =>
      let count := lexicon.madeUp.getD owner 0 + 1
      let counted := { lexicon with madeUp := lexicon.madeUp.insert owner count }
      counted.push ⟨owner ++ "_token" ++ toString count, false, content, immediate⟩

/-- A known name keeps its first content. -/
def internNamed (lexicon : Lexicon) (name : String) (content : Rule) (immediate : Bool) :
    Nat × Lexicon :=
  match lexicon.findNamed? name with
  | some id => (id, lexicon)
  | none => lexicon.push ⟨name, true, content, immediate⟩

end Lexicon

end Productions
