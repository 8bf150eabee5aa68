import Productions.Proofs.Recompilation.Replay

/-! Runs of the lexical table. Whatever is asked for, in whatever order, each content and each name
gets one entry and keeps it, and names that are made up for contents never coincide. -/
namespace Productions

theorem append_cons_inj {α : Type} {xs ys ds es : List α} {c : α} (apart : c ∉ ds) (apart' : c ∉ es)
    (h : xs ++ c :: ds = ys ++ c :: es) : xs = ys ∧ ds = es := by
  obtain ⟨more, rfl, rest⟩ | ⟨more, rfl, rest⟩ := List.append_eq_append_iff.1 h
  · cases more with
    | nil => simpa using rest
    | cons d more => exact absurd (by simp_all) apart
  · cases more with
    | nil => simpa [eq_comm] using rest
    | cons d more => exact absurd (by simp_all) apart'

theorem not_mem_digits {c : Char} (hc : c.isDigit = false) (n : Nat) : c ∉ (toString n).toList := by
  intro mem
  have digit : c.isDigit = true := by
    refine Nat.isDigit_of_mem_toDigits (b := 10) (n := n) (by decide) (by decide) ?_
    simpa [toString, Nat.repr] using mem
  rw [hc] at digit
  cases digit

def LexicalEntry.MadeUp (e : LexicalEntry) : Prop := e.named = false ∧ ∀ t, e.content ≠ .terminal t

namespace Lexicon

def madeUpName (owner : String) (count : Nat) : String := owner ++ "_token" ++ toString count

/-- The digits after the last separator are the count, whatever the owner looks like. -/
theorem madeUpName_inj {owner owner' : String} {count count' : Nat}
    (h : madeUpName owner count = madeUpName owner' count') : owner = owner' ∧ count = count' := by
  have split (owner : String) (count : Nat) : (madeUpName owner count).toList
      = (owner.toList ++ ['_', 't', 'o', 'k', 'e']) ++ 'n' :: (toString count).toList := by
    simp [madeUpName]
  have lists := congrArg String.toList h
  rw [split, split] at lists
  obtain ⟨owners, counts⟩ := append_cons_inj (not_mem_digits rfl _) (not_mem_digits rfl _) lists
  have digits : Nat.toDigits 10 count = Nat.toDigits 10 count' := by
    simpa [toString, Nat.repr] using counts
  refine ⟨String.toList_inj.1 (List.append_cancel_right owners), ?_⟩
  calc
    count = Nat.ofDigitChars 10 (Nat.toDigits 10 count) 0 := Nat.ofDigitChars_ten_toDigits.symm
    _ = Nat.ofDigitChars 10 (Nat.toDigits 10 count') 0 := by rw [digits]
    _ = count' := Nat.ofDigitChars_ten_toDigits

/-- How a new anonymous entry is named: a terminal after itself, other content after its owner. -/
inductive NamedAfter (owner : String) : Rule → String → Prop where
  | literal (text) : NamedAfter owner (.terminal (.literal text)) text
  | pattern (value flags) : NamedAfter owner (.terminal (.pattern value flags)) value
  | compound {content count} (compound : ∀ t, content ≠ .terminal t) (positive : 0 < count) :
      NamedAfter owner content (madeUpName owner count)

inductive Call where
  | anonymous (content : Rule) (immediate : Bool) (owner : String)
  | named (name : String) (content : Rule) (immediate : Bool)
  | find (name : String)

def answer (L : Lexicon) : Call → Option Nat × Lexicon
  | .anonymous content immediate owner =>
    let (id, L') := L.internAnonymous content immediate owner
    (some id, L')
  | .named name content immediate =>
    let (id, L') := L.internNamed name content immediate
    (some id, L')
  | .find name => (L.findNamed? name, L)

def tableAfter (calls : List Call) : Lexicon := calls.foldl (fun L call => (L.answer call).2) ∅

def answersFrom : Lexicon → List Call → List (Call × Option Nat)
  | _, [] => []
  | L, call :: calls => (call, (L.answer call).1) :: answersFrom (L.answer call).2 calls

def answers (calls : List Call) : List (Call × Option Nat) := answersFrom ∅ calls

theorem tableAfter_append (calls more : List Call) :
    tableAfter (calls ++ more) = more.foldl (fun L call => (L.answer call).2) (tableAfter calls) :=
  List.foldl_append

theorem tableAfter_concat (calls : List Call) (call : Call) :
    tableAfter (calls ++ [call]) = ((tableAfter calls).answer call).2 := by
  rw [tableAfter_append]
  rfl

theorem answersFrom_append (L : Lexicon) (calls more : List Call) :
    answersFrom L (calls ++ more) = answersFrom L calls
      ++ answersFrom (calls.foldl (fun L call => (L.answer call).2) L) more := by
  induction calls generalizing L with
  | nil => rfl
  | cons call calls ih => rw [List.cons_append, answersFrom, answersFrom, ih]; rfl

theorem answers_append (calls more : List Call) :
    answers (calls ++ more) = answers calls ++ answersFrom (tableAfter calls) more :=
  answersFrom_append ∅ calls more

theorem answers_concat (calls : List Call) (call : Call) :
    answers (calls ++ [call]) = answers calls ++ [(call, ((tableAfter calls).answer call).1)] :=
  answers_append calls [call]

theorem map_fst_answersFrom (L : Lexicon) (calls : List Call) :
    (answersFrom L calls).map Prod.fst = calls := by
  induction calls generalizing L with
  | nil => rfl
  | cons call calls ih => rw [answersFrom, List.map_cons, ih]

/-- An answer is given by the table after the calls before. -/
theorem exists_of_answers_eq {calls : List Call} {before after : List (Call × Option Nat)}
    {call : Call} {a : Option Nat} (h : answers calls = before ++ (call, a) :: after) :
    ∃ earlier later, calls = earlier ++ call :: later ∧ before = answers earlier
      ∧ a = ((tableAfter earlier).answer call).1 := by
  have asked : calls = before.map Prod.fst ++ call :: after.map Prod.fst := by
    rw [← map_fst_answersFrom ∅ calls, ← answers, h]
    simp
  have length : before.length = (answers (before.map Prod.fst)).length := by
    have same := congrArg List.length (map_fst_answersFrom ∅ (before.map Prod.fst))
    simpa [answers] using same.symm
  rw [asked, answers_append] at h
  obtain ⟨same, rest⟩ := List.append_inj h length.symm
  rw [answersFrom, List.cons.injEq, Prod.mk.injEq] at rest
  exact ⟨_, _, asked, same.symm, rest.1.2.symm⟩

def Call.Wants : Call → LexicalEntry → Prop
  | .anonymous content immediate _, e => e.named = false ∧ e.content = content
    ∧ e.immediate = immediate
  | .named name _ _, e | .find name, e => e.named = true ∧ e.name = name

def Call.Makes : Call → LexicalEntry → Prop
  | .anonymous content immediate owner, e => e.named = false ∧ e.content = content
    ∧ e.immediate = immediate ∧ NamedAfter owner content e.name
  | .named name content immediate, e => e = ⟨name, true, content, immediate⟩
  | .find _, _ => False

theorem Call.Makes.wants {call : Call} {e : LexicalEntry} (h : call.Makes e) : call.Wants e := by
  cases call with
  | anonymous => exact ⟨h.1, h.2.1, h.2.2.1⟩
  | named =>
    obtain rfl : e = _ := h
    exact ⟨rfl, rfl⟩
  | find => exact h.elim

/-- Calls that want one entry in common want the same entries. -/
theorem Call.Wants.of_common {call call' : Call} {e f : LexicalEntry} (h : call.Wants e)
    (common : call'.Wants e) (other : call'.Wants f) : call.Wants f := by
  cases call with
  | anonymous =>
    cases call' with
    | anonymous =>
      exact ⟨other.1, other.2.1.trans (common.2.1.symm.trans h.2.1),
        other.2.2.trans (common.2.2.symm.trans h.2.2)⟩
    | named | find => exact absurd (h.1.symm.trans common.1) Bool.false_ne_true
  | named | find =>
    cases call' with
    | anonymous => exact absurd (common.1.symm.trans h.1) Bool.false_ne_true
    | named | find => exact ⟨other.1, other.2.trans (common.2.symm.trans h.2)⟩

def count (L : Lexicon) (owner : String) : Nat := L.madeUp.getD owner 0

/-- Counts never go down, and the name of the entry that is made up has a count of its own. -/
structure Counted (L L' : Lexicon) (e : LexicalEntry) : Prop where
  grown : ∀ owner, L.count owner ≤ L'.count owner
  fresh : e.MadeUp → ∃ owner, e.name = madeUpName owner (L.count owner + 1)
    ∧ L.count owner + 1 ≤ L'.count owner

inductive Step (L : Lexicon) : Call → Option Nat → Lexicon → Prop where
  | known {call id e} (stands : L.entries[id]? = some e) (wants : call.Wants e) :
      Step L call (some id) L
  | absent {name} (unknown : ∀ e ∈ L.entries, ¬ (Call.find name).Wants e) :
      Step L (.find name) none L
  | entered {call e L'} (new : ∀ f ∈ L.entries, ¬ call.Wants f) (makes : call.Makes e)
      (entries : L'.entries = L.entries ++ [e]) (counted : Counted L L' e) :
      Step L call (some L.size) L'

variable {L : Lexicon} {content : Rule} {immediate : Bool} {owner name : String}

theorem not_wants_of_findNamed? (none : L.findNamed? name = none) :
    ∀ e ∈ L.entries, ¬ (Call.find name).Wants e := by
  rintro e he ⟨named, same⟩
  exact findNamed?_eq_none_iff.1 none e he named same

theorem not_wants_of_findAnonymous? (none : L.findAnonymous? content immediate = none) :
    ∀ e ∈ L.entries, ¬ (Call.anonymous content immediate owner).Wants e := by
  rintro e he ⟨unnamed, same, flag⟩
  exact findAnonymous?_eq_none_iff.1 none e he unnamed flag same

theorem step_internAnonymous (L : Lexicon) (content : Rule) (immediate : Bool) (owner : String) :
    Step L (.anonymous content immediate owner) (L.internAnonymous content immediate owner).1
      (L.internAnonymous content immediate owner).2 := by
  cases known : L.findAnonymous? content immediate with
  | some id =>
    obtain ⟨e, stands, wanted⟩ := exists_of_findAnonymous? known
    rw [internAnonymous_of_known known]
    exact .known stands wanted
  | none =>
    have new : ∀ f ∈ L.entries, ¬ (Call.anonymous content immediate owner).Wants f :=
      not_wants_of_findAnonymous? known
    unfold internAnonymous
    rw [known]
    dsimp only
    split
    · rename_i text
      exact .entered new ⟨rfl, rfl, rfl, .literal text⟩ rfl
        ⟨fun _ => le_rfl, fun made => absurd rfl (made.2 (.literal text))⟩
    · rename_i value flags
      exact .entered new ⟨rfl, rfl, rfl, .pattern value flags⟩ rfl
        ⟨fun _ => le_rfl, fun made => absurd rfl (made.2 (.pattern value flags))⟩
    · rename_i literal pattern
      have compound : ∀ t, content ≠ .terminal t := by
        rintro (text | ⟨value, flags⟩)
        · exact literal text
        · exact pattern value flags
      have counts (other : String) : (L.madeUp.insert owner (L.count owner + 1)).getD other 0
          = if other = owner then L.count owner + 1 else L.count other := by
        rw [OrderedMap.getD, OrderedMap.get?_insert]
        split <;> rfl
      refine .entered new ⟨rfl, rfl, rfl, .compound compound (Nat.succ_pos _)⟩ rfl
        ⟨fun other => ?_, fun _ => ⟨owner, rfl, ?_⟩⟩
      · refine le_of_le_of_eq ?_ (counts other).symm
        split <;> rename_i same
        · exact same ▸ Nat.le_succ _
        · exact le_rfl
      · exact le_of_eq_of_le (by simp) (counts owner).symm.le

theorem step_internNamed (L : Lexicon) (name : String) (content : Rule) (immediate : Bool) :
    Step L (.named name content immediate) (L.internNamed name content immediate).1
      (L.internNamed name content immediate).2 := by
  cases known : L.findNamed? name with
  | some id =>
    obtain ⟨e, stands, wanted⟩ := exists_of_findNamed? known
    rw [internNamed_of_known known]
    exact .known stands wanted
  | none =>
    rw [internNamed_of_new known]
    exact .entered (not_wants_of_findNamed? known) rfl rfl
      ⟨fun _ => le_rfl, fun made => absurd made.1.symm Bool.false_ne_true⟩

theorem step_answer (L : Lexicon) (call : Call) :
    Step L call (L.answer call).1 (L.answer call).2 := by
  cases call with
  | anonymous content immediate owner => exact step_internAnonymous L content immediate owner
  | named name content immediate => exact step_internNamed L name content immediate
  | find name =>
    rw [answer]
    cases known : L.findNamed? name with
    | some id =>
      obtain ⟨e, stands, wanted⟩ := exists_of_findNamed? known
      exact .known stands wanted
    | none => exact .absent (not_wants_of_findNamed? known)

/-- What holds after every call: the answers are the numbers of what was asked for, the first one
to give a number out made its entry, and made-up names have used up counts. -/
structure Kept (history : List (Call × Option Nat)) (L : Lexicon) : Prop where
  answered : ∀ call id, (call, some id) ∈ history → ∃ e, L.entries[id]? = some e ∧ call.Wants e
  refused : ∀ call, (call, none) ∈ history → ∃ name, call = .find name
  created : ∀ (id : Nat) e, L.entries[id]? = some e → ∃ before call after,
    history = before ++ (call, some id) :: after ∧ (∀ p ∈ before, p.2 ≠ some id) ∧ call.Makes e
  unique : ∀ (call : Call) (id id' : Nat) e f, L.entries[id]? = some e → L.entries[id']? = some f →
    call.Wants e → call.Wants f → id = id'
  counted : ∀ e ∈ L.entries, e.MadeUp →
    ∃ owner count, e.name = madeUpName owner count ∧ count ≤ L.count owner
  distinct : L.entries.Pairwise fun e f => e.MadeUp → f.MadeUp → e.name ≠ f.name

variable {history : List (Call × Option Nat)} {call : Call} {a : Option Nat} {L' : Lexicon}

theorem kept_empty : Kept [] ∅ := by
  have none : (∅ : Lexicon).entries = [] := rfl
  constructor <;> simp [none]

/-- A call that leaves the table as it is. -/
theorem Kept.asked (h : Kept history L)
    (right : ∀ id, a = some id → ∃ e, L.entries[id]? = some e ∧ call.Wants e)
    (refused : a = none → ∃ name, call = .find name) : Kept (history ++ [(call, a)]) L where
  answered call' id mem := by
    rcases List.mem_append.1 mem with mem | mem
    · exact h.answered call' id mem
    · cases List.mem_singleton.1 mem
      exact right id rfl
  refused call' mem := by
    rcases List.mem_append.1 mem with mem | mem
    · exact h.refused call' mem
    · cases List.mem_singleton.1 mem
      exact refused rfl
  created id f there := by
    obtain ⟨before, call', after, rfl, first, makes⟩ := h.created id f there
    exact ⟨before, call', after ++ [(call, a)], by simp, first, makes⟩
  unique := h.unique
  counted := h.counted
  distinct := h.distinct

theorem getElem?_concat_cases {α : Type} {l : List α} {x y : α} {i : Nat}
    (h : (l ++ [x])[i]? = some y) : l[i]? = some y ∨ i = l.length ∧ y = x := by
  rcases Nat.lt_trichotomy i l.length with less | same | more
  · exact .inl (by rwa [List.getElem?_append_left less] at h)
  · subst same
    exact .inr ⟨rfl, by simpa [eq_comm] using h⟩
  · rw [List.getElem?_eq_none (by simp; omega)] at h
    cases h

theorem Kept.entered (h : Kept history L) {e : LexicalEntry}
    (new : ∀ f ∈ L.entries, ¬ call.Wants f) (makes : call.Makes e)
    (entries : L'.entries = L.entries ++ [e]) (counted : Counted L L' e) :
    Kept (history ++ [(call, some L.size)]) L' where
  answered call' id mem := by
    rw [entries]
    rcases List.mem_append.1 mem with mem | mem
    · obtain ⟨f, stands, wants⟩ := h.answered call' id mem
      have inside := (List.getElem?_eq_some_iff.1 stands).1
      exact ⟨f, (List.getElem?_append_left inside).trans stands, wants⟩
    · cases List.mem_singleton.1 mem
      exact ⟨e, by simp [size], makes.wants⟩
  refused call' mem := by
    rcases List.mem_append.1 mem with mem | mem
    · exact h.refused call' mem
    · cases List.mem_singleton.1 mem
  created id f there := by
    rw [entries] at there
    rcases getElem?_concat_cases there with old | ⟨rfl, rfl⟩
    · obtain ⟨before, call', after, rfl, first, makes'⟩ := h.created id f old
      exact ⟨before, call', after ++ [(call, some L.size)], by simp, first, makes'⟩
    · refine ⟨history, call, [], rfl, ?_, makes⟩
      -- a number that was given out before stands in the table before
      rintro ⟨call', _⟩ mem rfl
      obtain ⟨f', stands, -⟩ := h.answered call' _ mem
      simp at stands
  unique call' id id' f f' there there' wants wants' := by
    rw [entries] at there there'
    rcases getElem?_concat_cases there with old | ⟨rfl, rfl⟩
    · rcases getElem?_concat_cases there' with old' | ⟨rfl, rfl⟩
      · exact h.unique call' id id' f f' old old' wants wants'
      · exact absurd (makes.wants.of_common wants' wants) (new f (List.mem_of_getElem? old))
    · rcases getElem?_concat_cases there' with old' | ⟨rfl, rfl⟩
      · exact absurd (makes.wants.of_common wants wants') (new f' (List.mem_of_getElem? old'))
      · rfl
  counted f mem made := by
    rw [entries] at mem
    rcases List.mem_append.1 mem with mem | mem
    · obtain ⟨owner, count, name, bound⟩ := h.counted f mem made
      exact ⟨owner, count, name, bound.trans (counted.grown owner)⟩
    · cases List.mem_singleton.1 mem
      obtain ⟨owner, name, bound⟩ := counted.fresh made
      exact ⟨owner, _, name, bound⟩
  distinct := by
    rw [entries]
    refine List.pairwise_append.2 ⟨h.distinct, List.pairwise_singleton _ _, ?_⟩
    intro f hf f' hf' old made same
    cases List.mem_singleton.1 hf'
    obtain ⟨owner, count, name, bound⟩ := h.counted f hf old
    obtain ⟨owner', name', -⟩ := counted.fresh made
    -- equal names have equal counts, but the count of the new one was not yet used up
    obtain ⟨rfl, rfl⟩ := madeUpName_inj (name.symm.trans (same.trans name'))
    exact absurd bound (Nat.not_succ_le_self _)

theorem Kept.step (h : Kept history L) (step : Step L call a L') :
    Kept (history ++ [(call, a)]) L' := by
  cases step with
  | @known _ id e stands wants =>
    refine h.asked (fun other same => ?_) nofun
    cases same
    exact ⟨e, stands, wants⟩
  | absent => exact h.asked nofun fun _ => ⟨_, rfl⟩
  | entered new makes entries counted => exact h.entered new makes entries counted

/-- The run of any calls keeps it. -/
theorem kept_run (calls : List Call) : Kept (answers calls) (tableAfter calls) := by
  induction calls using List.reverseRecOn with
  | nil => exact kept_empty
  | append_singleton calls call ih =>
    rw [answers_concat, tableAfter_concat]
    exact ih.step (step_answer _ call)

theorem prefix_step (step : Step L call a L') : L.entries <+: L'.entries := by
  cases step with
  | known | absent => exact List.prefix_rfl
  | entered _ _ entries => exact entries ▸ List.prefix_append _ _

theorem prefix_tableAfter (calls more : List Call) :
    (tableAfter calls).entries <+: (tableAfter (calls ++ more)).entries := by
  induction more using List.reverseRecOn with
  | nil => rw [List.append_nil]
  | append_singleton more call ih =>
    rw [← List.append_assoc, tableAfter_concat]
    exact ih.trans (prefix_step (step_answer _ call))

/-- What any calls on an empty table should come to. Calls are told from their answers: contents and
names get a number each, numbers stand for entries that stay, and only a name that has been given a
number is found. An entry is made by the first call that is answered by its number. -/
structure Interns (calls : List Call) : Prop where
  answered : (answers calls).map Prod.fst = calls
  given : ∀ call, (call, none) ∈ answers calls → ∃ name, call = .find name
  anonymous : ∀ content immediate owner a content' immediate' owner' a',
    (.anonymous content immediate owner, a) ∈ answers calls →
    (.anonymous content' immediate' owner', a') ∈ answers calls →
    (a = a' ↔ content = content' ∧ immediate = immediate')
  named : ∀ name content immediate a name' content' immediate' a',
    (.named name content immediate, a) ∈ answers calls →
    (.named name' content' immediate', a') ∈ answers calls → (a = a' ↔ name = name')
  apart : ∀ content immediate owner a name content' immediate' a',
    (.anonymous content immediate owner, a) ∈ answers calls →
    (.named name content' immediate', a') ∈ answers calls → a ≠ a'
  found : ∀ before name a after, answers calls = before ++ (.find name, a) :: after →
    ∀ id, a = some id ↔ ∃ content immediate, (.named name content immediate, some id) ∈ before
  bounded : ∀ call id, (call, some id) ∈ answers calls → id < (tableAfter calls).size
  created : ∀ id e, (tableAfter calls).get? id = some e → ∃ before call after,
    answers calls = before ++ (call, some id) :: after ∧ (∀ p ∈ before, p.2 ≠ some id)
      ∧ call.Makes e
  first : ∀ before name content immediate a after,
    answers calls = before ++ (.named name content immediate, a) :: after →
    (∀ content' immediate' a', (.named name content' immediate', a') ∉ before) →
    ∃ id, a = some id ∧ (tableAfter calls).get? id = some ⟨name, true, content, immediate⟩
  kept : ∀ more id e, (tableAfter calls).get? id = some e →
    (tableAfter (calls ++ more)).get? id = some e
  distinct : ∀ id id' e f, (tableAfter calls).get? id = some e →
    (tableAfter calls).get? id' = some f → e.MadeUp → f.MadeUp → e.name = f.name → id = id'

/-- Two calls that want the same entries are answered alike, and only those. -/
theorem Kept.answer_eq_iff (h : Kept history L) {call call' : Call} {a a' : Option Nat}
    (asked : (call, a) ∈ history) (asked' : (call', a') ∈ history)
    (interns : ∀ name, call ≠ .find name) (interns' : ∀ name, call' ≠ .find name) :
    a = a' ↔ ∃ e, call.Wants e ∧ call'.Wants e := by
  obtain _ | id := a
  · obtain ⟨name, rfl⟩ := h.refused call asked
    exact absurd rfl (interns name)
  obtain _ | id' := a'
  · obtain ⟨name, rfl⟩ := h.refused call' asked'
    exact absurd rfl (interns' name)
  obtain ⟨e, stands, wants⟩ := h.answered call id asked
  obtain ⟨f, stands', wants'⟩ := h.answered call' id' asked'
  rw [Option.some_inj]
  constructor
  · rintro rfl
    obtain rfl := Option.some.inj (stands.symm.trans stands')
    exact ⟨e, wants, wants'⟩
  · rintro ⟨common, left, right⟩
    exact h.unique call id id' e f stands stands' wants (left.of_common right wants')

theorem Kept.place_eq_of_name_eq (h : Kept history L) {id id' : Nat} {e f : LexicalEntry}
    (stands : L.entries[id]? = some e) (stands' : L.entries[id']? = some f) (made : e.MadeUp)
    (made' : f.MadeUp) (same : e.name = f.name) : id = id' :=
  eq_of_pairwise (r := fun e f => e.MadeUp ∧ f.MadeUp ∧ e.name = f.name)
    (fun ⟨made, made', same⟩ => ⟨made', made, same.symm⟩)
    (h.distinct.imp fun apart ⟨made, made', same⟩ => apart made made' same) stands stands'
    ⟨made, made', same⟩

/-- A name is found under the number that was given out for it. -/
theorem Kept.find_eq_some_iff (h : Kept history L) (step : Step L (.find name) a L') (id : Nat) :
    a = some id ↔ ∃ content immediate, (.named name content immediate, some id) ∈ history := by
  constructor
  · rintro rfl
    cases step with
    | known stands wants =>
      obtain ⟨before, call, after, rfl, -, makes⟩ := h.created id _ stands
      cases call with
      | anonymous => exact absurd (makes.1.symm.trans wants.1) Bool.false_ne_true
      | named other content immediate =>
        obtain rfl : _ = LexicalEntry.mk other true content immediate := makes
        obtain rfl : other = name := wants.2
        exact ⟨content, immediate, by simp⟩
      | find => exact makes.elim
    | entered _ makes => exact makes.elim
  · rintro ⟨content, immediate, asked⟩
    obtain ⟨e, stands, wants⟩ := h.answered _ id asked
    cases step with
    | known stands' wants' =>
      exact congrArg some (h.unique (.find name) _ id _ e stands' stands wants' wants)
    | absent unknown => exact absurd wants (unknown e (List.mem_of_getElem? stands))
    | entered _ makes => exact makes.elim

theorem Kept.first_named (h : Kept history L) (step : Step L (.named name content immediate) a L')
    (first : ∀ content' immediate' a', (.named name content' immediate', a') ∉ history) :
    ∃ id, a = some id ∧ L'.entries[id]? = some ⟨name, true, content, immediate⟩ := by
  cases step with
  | known stands wants =>
    have find : Step L (.find name) (some _) L := .known stands wants
    obtain ⟨content', immediate', asked⟩ := (h.find_eq_some_iff find _).1 rfl
    exact absurd asked (first content' immediate' _)
  | entered _ makes entries =>
    obtain rfl : _ = LexicalEntry.mk name true content immediate := makes
    exact ⟨L.size, rfl, by simp [entries, size]⟩

theorem get?_of_grown {id : Nat} {e : LexicalEntry} (h : L.entries <+: L'.entries)
    (stands : L.get? id = some e) : L'.get? id = some e := by
  obtain ⟨more, grown⟩ := h
  rw [get?, ← grown, List.getElem?_append_left (List.getElem?_eq_some_iff.1 stands).1]
  exact stands

/-- Whatever is asked of a lexical table, it interns faithfully. -/
theorem interns_calls (calls : List Call) : Interns calls := by
  have kept := kept_run calls
  refine ⟨map_fst_answersFrom ∅ calls, kept.refused, ?_, ?_, ?_, ?_, ?_, kept.created, ?_, ?_, ?_⟩
  · intro content immediate owner a content' immediate' owner' a' asked asked'
    rw [kept.answer_eq_iff asked asked' nofun nofun]
    constructor
    · rintro ⟨e, wants, wants'⟩
      exact ⟨wants.2.1.symm.trans wants'.2.1, wants.2.2.symm.trans wants'.2.2⟩
    · rintro ⟨rfl, rfl⟩
      exact ⟨⟨owner, false, content, immediate⟩, ⟨rfl, rfl, rfl⟩, rfl, rfl, rfl⟩
  · intro name content immediate a name' content' immediate' a' asked asked'
    rw [kept.answer_eq_iff asked asked' nofun nofun]
    constructor
    · rintro ⟨e, wants, wants'⟩
      exact wants.2.symm.trans wants'.2
    · rintro rfl
      exact ⟨⟨name, true, content, immediate⟩, ⟨rfl, rfl⟩, rfl, rfl⟩
  · intro content immediate owner a name content' immediate' a' asked asked'
    rw [ne_eq, kept.answer_eq_iff asked asked' nofun nofun]
    rintro ⟨e, wants, wants'⟩
    exact absurd (wants.1.symm.trans wants'.1) Bool.false_ne_true
  · intro before name a after split id
    obtain ⟨earlier, later, -, rfl, rfl⟩ := exists_of_answers_eq split
    exact (kept_run earlier).find_eq_some_iff (step_answer _ _) id
  · intro call id asked
    obtain ⟨e, stands, -⟩ := kept.answered call id asked
    exact (List.getElem?_eq_some_iff.1 stands).1
  · intro before name content immediate a after split first
    obtain ⟨earlier, later, rfl, rfl, rfl⟩ := exists_of_answers_eq split
    obtain ⟨id, given, stands⟩ := (kept_run earlier).first_named (step_answer _ _) first
    have grown := prefix_tableAfter (earlier ++ [.named name content immediate]) later
    rw [List.append_assoc] at grown
    exact ⟨id, given, get?_of_grown grown (tableAfter_concat earlier _ ▸ stands)⟩
  · exact fun more id e stands => get?_of_grown (prefix_tableAfter calls more) stands
  · exact fun id id' e f stands stands' => kept.place_eq_of_name_eq stands stands'

/-- A token of the rule `list`, one of a rule that is named like it, and a token rule of that name.
The first token is asked for again by another rule. -/
def lookAlikes : List Call := [
  .anonymous (.seq [.terminal (.literal "("), .terminal (.literal ")")]) false "list",
  .anonymous .blank false "list_token1",
  .anonymous .blank true "list",
  .find "list_token1",
  .named "list_token1" (.terminal (.literal "[]")) false,
  .anonymous (.seq [.terminal (.literal "("), .terminal (.literal ")")]) false "item",
  .named "list_token1" .blank true,
  .find "list_token1"]

example : (answers lookAlikes).map Prod.snd
      = [some 0, some 1, some 2, none, some 3, some 0, some 3, some 3]
    ∧ (tableAfter lookAlikes).entries.map LexicalEntry.name
      = ["list_token1", "list_token1_token1", "list_token2", "list_token1"] := by
  cbv

end Lexicon

end Productions
