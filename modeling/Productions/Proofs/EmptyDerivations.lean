import Productions.Proofs.Nullability

/-! Empty derivations. The names that the rounds find nullable are exactly those whose bodies derive
the empty text, in whatever order the bodies stand, and the numbers that are found exactly those
whose bodies derive nothing but terminals that are judged empty. A name or a number without a body
derives nothing at all, so a rule that only comes back to itself is not among them. -/
namespace Productions

namespace Rule

def referenceIn (bodies : OrderedMap String Rule) (name : String) : Reference :=
  match bodies.get? name with
  | some body => .rule body
  | none => .nothing

/-- A rule derives the empty text: some string that it derives has only letters that match it. -/
def DerivesEmpty (bodies : OrderedMap String Rule) (r : Rule) : Prop :=
  ∃ w, Derives (referenceIn bodies) r w ∧ Letter.silent w = true

variable {bodies : OrderedMap String Rule}

theorem referenceIn_eq_rule {name : String} {body : Rule} :
    referenceIn bodies name = .rule body ↔ bodies.get? name = some body := by
  unfold referenceIn
  cases bodies.get? name <;> simp

theorem referenceIn_ne_token (name : String) (body : Rule) :
    referenceIn bodies name ≠ .token body := by
  unfold referenceIn
  cases bodies.get? name <;> simp

theorem derives_symbol_iff {name : String} {w : List Letter} :
    Derives (referenceIn bodies) (.symbol name) w
      ↔ ∃ body, bodies.get? name = some body ∧ Derives (referenceIn bodies) body w := by
  constructor
  · intro h
    cases h with
    | rule ref inner => exact ⟨_, referenceIn_eq_rule.1 ref, inner⟩
    | tokenRule ref => exact absurd ref (referenceIn_ne_token name _)
    | external ref =>
      unfold referenceIn at ref
      cases found : bodies.get? name <;> simp [found] at ref
  · rintro ⟨body, found, inner⟩
    exact .rule (referenceIn_eq_rule.2 found) inner

theorem derivesEmpty_symbol_iff {name : String} :
    (symbol name).DerivesEmpty bodies
      ↔ ∃ body, bodies.get? name = some body ∧ body.DerivesEmpty bodies := by
  constructor
  · rintro ⟨w, derives, silent⟩
    obtain ⟨body, found, inner⟩ := derives_symbol_iff.1 derives
    exact ⟨body, found, w, inner, silent⟩
  · rintro ⟨body, found, w, inner, silent⟩
    exact ⟨w, derives_symbol_iff.2 ⟨body, found, inner⟩, silent⟩

theorem derivesEmpty_terminal_iff {t : Terminal} :
    (terminal t).DerivesEmpty bodies ↔ t.nullable = true := by
  constructor
  · rintro ⟨w, derives, silent⟩
    cases derives
    simpa [Letter.silent, Letter.isSilent] using silent
  · intro nullable
    exact ⟨_, .terminal t, by simpa [Letter.silent, Letter.isSilent] using nullable⟩

/-- The names that are found are those that derive the empty text. -/
theorem mem_nullableNames_iff {name : String} :
    name ∈ nullableNames bodies ↔ (symbol name).DerivesEmpty bodies := by
  constructor
  · -- A name enters after names that derive the empty text, by a body that needs only these.
    refine OrderedSet.leastClosed_induction bodies.entries
      (p := fun name => (symbol name).DerivesEmpty bodies) (fun found old e mem holds => ?_) name
    have known : ∀ name, found.contains name = true →
        Vanishes (derivedFrom (referenceIn bodies) name) :=
      fun name hn => old name (OrderedSet.contains_iff.1 hn)
    obtain ⟨w, derives, silent⟩ := derives_silent_of_nullable known holds
    exact derivesEmpty_symbol_iff.2 ⟨e.2, OrderedMap.get?_eq_some_iff.2 mem, w, derives, silent⟩
  · -- The names that are found are closed under the bodies, so no derivation leads out of them.
    rintro ⟨w, derives, silent⟩
    have found : (symbol name).nullable (nullableNames bodies).contains = true := by
      refine nullable_of_derives (fun name body ref nullable => ?_) derives silent
      rcases ref with ref | ref
      · have mem := OrderedMap.get?_eq_some_iff.1 (referenceIn_eq_rule.1 ref)
        exact OrderedSet.contains_iff.2
          (OrderedSet.mem_leastClosed_of_holds bodies.entries (name, body) mem nullable)
      · exact absurd ref (referenceIn_ne_token name body)
    exact OrderedSet.contains_iff.1 found

theorem referenceIn_congr {other : OrderedMap String Rule}
    (same : other.entries.Perm bodies.entries) : referenceIn other = referenceIn bodies := by
  funext name
  have found : other.get? name = bodies.get? name := by
    apply Option.ext
    intro body
    rw [OrderedMap.get?_eq_some_iff, OrderedMap.get?_eq_some_iff]
    exact same.mem_iff
  rw [referenceIn, referenceIn, found]

theorem mem_nullableNames_congr {other : OrderedMap String Rule}
    (same : other.entries.Perm bodies.entries) (name : String) :
    name ∈ nullableNames other ↔ name ∈ nullableNames bodies := by
  rw [mem_nullableNames_iff, mem_nullableNames_iff, DerivesEmpty, DerivesEmpty,
    referenceIn_congr same]

end Rule

namespace Expr

inductive Yields (bodies : List Expr) : Expr → List Symbol → Prop where
  | terminal {s} (ends : s.isTerminal = true) : Yields bodies (.symbol s) [s]
  | rule {i body w} (lookup : bodies[i]? = some body) (inner : Yields bodies body w) :
      Yields bodies (.symbol (.rule i)) w
  | seqNil : Yields bodies (.seq []) []
  | seqCons {e es u w} (head : Yields bodies e u) (tail : Yields bodies (.seq es) w) :
      Yields bodies (.seq (e :: es)) (u ++ w)
  | choice {e es w} (mem : e ∈ es) (inner : Yields bodies e w) : Yields bodies (.choice es) w
  | repeatNil {e} : Yields bodies (.repeated e) []
  | repeatCons {e u w} (head : Yields bodies e u) (tail : Yields bodies (.repeated e) w) :
      Yields bodies (.repeated e) (u ++ w)
  | prec {v a e w} (inner : Yields bodies e w) : Yields bodies (.prec v a e) w
  | aliased {e v m w} (inner : Yields bodies e w) : Yields bodies (.aliased e v m) w
  | field {m e w} (inner : Yields bodies e w) : Yields bodies (.field m e) w

/-- An expression derives the empty text by a verdict on terminals. -/
def YieldsEmpty (terminal : Symbol → Bool) (bodies : List Expr) (e : Expr) : Prop :=
  ∃ w, Yields bodies e w ∧ ∀ s ∈ w, terminal s = true

variable {terminal : Symbol → Bool} {bodies : List Expr}

theorem yieldsEmpty_rule_iff {i : ℕ} :
    (symbol (.rule i)).YieldsEmpty terminal bodies
      ↔ ∃ body, bodies[i]? = some body ∧ body.YieldsEmpty terminal bodies := by
  constructor
  · rintro ⟨w, yields, empty⟩
    cases yields with
    | terminal ends => cases ends
    | rule lookup inner => exact ⟨_, lookup, w, inner, empty⟩
  · rintro ⟨body, lookup, w, inner, empty⟩
    exact ⟨w, .rule lookup inner, empty⟩

section

variable {isNullable : Symbol → Bool}

mutual

theorem yieldsEmpty_of_nullable
    (known : ∀ s, isNullable s = true → (symbol s).YieldsEmpty terminal bodies) :
    (e : Expr) → e.nullable isNullable = true → e.YieldsEmpty terminal bodies
  | symbol s, h => known s h
  | seq members, h => yieldsEmpty_of_everyNullable known members h
  | choice members, h => by
    obtain ⟨e, mem, w, yields, empty⟩ := exists_yieldsEmpty_of_someNullable known members h
    exact ⟨w, .choice mem yields, empty⟩
  | repeated _, _ => ⟨[], .repeatNil, by simp⟩
  | prec _ _ content, h => by
    obtain ⟨w, yields, empty⟩ := yieldsEmpty_of_nullable known content h
    exact ⟨w, .prec yields, empty⟩
  | aliased content _ _, h => by
    obtain ⟨w, yields, empty⟩ := yieldsEmpty_of_nullable known content h
    exact ⟨w, .aliased yields, empty⟩
  | field _ content, h => by
    obtain ⟨w, yields, empty⟩ := yieldsEmpty_of_nullable known content h
    exact ⟨w, .field yields, empty⟩

theorem yieldsEmpty_of_everyNullable
    (known : ∀ s, isNullable s = true → (symbol s).YieldsEmpty terminal bodies) :
    (es : List Expr) → everyNullable isNullable es = true →
    (seq es).YieldsEmpty terminal bodies
  | [], _ => ⟨[], .seqNil, by simp⟩
  | e :: es, h => by
    rw [everyNullable, Bool.and_eq_true] at h
    obtain ⟨u, head, emptyHead⟩ := yieldsEmpty_of_nullable known e h.1
    obtain ⟨w, tail, emptyTail⟩ := yieldsEmpty_of_everyNullable known es h.2
    exact ⟨u ++ w, .seqCons head tail, List.forall_mem_append.2 ⟨emptyHead, emptyTail⟩⟩

theorem exists_yieldsEmpty_of_someNullable
    (known : ∀ s, isNullable s = true → (symbol s).YieldsEmpty terminal bodies) :
    (es : List Expr) → someNullable isNullable es = true →
    ∃ e ∈ es, e.YieldsEmpty terminal bodies
  | e :: es, h => by
    rw [someNullable, Bool.or_eq_true] at h
    rcases h with h | h
    · exact ⟨e, by simp, yieldsEmpty_of_nullable known e h⟩
    · obtain ⟨f, mem, empty⟩ := exists_yieldsEmpty_of_someNullable known es h
      exact ⟨f, by simp [mem], empty⟩

end

end

theorem nullable_of_yields {found : ℕ → Bool}
    (closed : ∀ i body, bodies[i]? = some body →
      body.nullable (symbolVerdict terminal found) = true → found i = true)
    {e : Expr} {w : List Symbol} (h : Yields bodies e w) (empty : ∀ s ∈ w, terminal s = true) :
    e.nullable (symbolVerdict terminal found) = true := by
  induction h with
  | @terminal s ends =>
    cases s with
    | rule i => cases ends
    | lexical i | external i => exact empty _ (by simp)
  | rule lookup _ ih => exact closed _ _ lookup (ih empty)
  | seqNil | repeatNil | repeatCons => rfl
  | seqCons _ _ ihe ihs =>
    rw [List.forall_mem_append] at empty
    rw [nullable, everyNullable, Bool.and_eq_true]
    exact ⟨ihe empty.1, ihs empty.2⟩
  | @choice e es _ mem _ ih =>
    rw [nullable, someNullable_eq_any, List.any_eq_true]
    exact ⟨e, mem, ih empty⟩
  | prec _ ih | aliased _ ih | field _ ih => exact ih empty

/-- The numbers that are found are those that derive the empty text. -/
theorem mem_nullableIds_iff {i : ℕ} :
    i ∈ nullableIds terminal bodies ↔ (symbol (.rule i)).YieldsEmpty terminal bodies := by
  constructor
  · refine OrderedSet.leastClosed_induction _
      (p := fun i => (symbol (.rule i)).YieldsEmpty terminal bodies)
      (fun found old e mem holds => ?_) i
    have known : ∀ s, symbolVerdict terminal found.contains s = true →
        (symbol s).YieldsEmpty terminal bodies := by
      intro s hs
      cases s with
      | rule j => exact old j (OrderedSet.contains_iff.1 hs)
      | lexical j | external j => exact ⟨_, .terminal rfl, List.forall_mem_singleton.2 hs⟩
    exact yieldsEmpty_rule_iff.2
      ⟨e.2, Numbering.mem_bodies_iff.1 mem, yieldsEmpty_of_nullable known e.2 holds⟩
  · rintro ⟨w, yields, empty⟩
    have found : (symbol (.rule i)).nullable
        (symbolVerdict terminal (nullableIds terminal bodies).contains) = true := by
      refine nullable_of_yields (fun j body lookup nullable => ?_) yields empty
      exact OrderedSet.contains_iff.2 (OrderedSet.mem_leastClosed_of_holds _ (j, body)
        (Numbering.mem_bodies_iff.2 lookup) nullable)
    exact OrderedSet.contains_iff.1 found

end Expr

/-- The rounds end, with exactly the names and numbers whose bodies derive the empty text. -/
theorem nullable_iff_derives_nothing :
    (∀ bodies : OrderedMap String Rule,
      (∃ rounds, ∀ more, (OrderedSet.closeOnce Rule.nullable bodies.entries)^[more + rounds] ∅
        = Rule.nullableNames bodies)
      ∧ (∀ name, name ∈ Rule.nullableNames bodies
        ↔ ∃ body, bodies.get? name = some body ∧ body.DerivesEmpty bodies)
      ∧ (∀ name, (Rule.symbol name).DerivesEmpty bodies
        ↔ ∃ body, bodies.get? name = some body ∧ body.DerivesEmpty bodies)
      ∧ (∀ text, (Rule.terminal (.literal text)).DerivesEmpty bodies ↔ text = "")
      ∧ (∀ value flags, (Rule.terminal (.pattern value flags)).DerivesEmpty bodies
        ↔ Pattern.matchesEmpty value flags = true)
      ∧ ∀ other : OrderedMap String Rule, other.entries.Perm bodies.entries →
        ∀ name, name ∈ Rule.nullableNames other ↔ name ∈ Rule.nullableNames bodies)
    ∧ ∀ (terminal : Symbol → Bool) (bodies : List Expr),
      (∃ rounds, ∀ more, (OrderedSet.closeOnce
        (fun found e => e.nullable (Expr.symbolVerdict terminal found))
        (bodies.zipIdx.map Prod.swap))^[more + rounds] ∅ = Expr.nullableIds terminal bodies)
      ∧ (∀ i, i ∈ Expr.nullableIds terminal bodies
        ↔ ∃ body, bodies[i]? = some body ∧ body.YieldsEmpty terminal bodies)
      ∧ ∀ i, bodies.length ≤ i → ∀ w, ¬ Expr.Yields bodies (.symbol (.rule i)) w := by
  constructor
  · intro bodies
    refine ⟨OrderedSet.rounds_leastClosed bodies.entries, fun name => ?_, fun name => ?_,
      fun text => ?_, fun value flags => ?_, fun other same name => ?_⟩
    · exact Rule.mem_nullableNames_iff.trans Rule.derivesEmpty_symbol_iff
    · exact Rule.derivesEmpty_symbol_iff
    · rw [Rule.derivesEmpty_terminal_iff]
      exact String.isEmpty_iff
    · exact Rule.derivesEmpty_terminal_iff
    · exact Rule.mem_nullableNames_congr same name
  · intro terminal bodies
    refine ⟨OrderedSet.rounds_leastClosed _, fun i => ?_, fun i outside w yields => ?_⟩
    · exact Expr.mem_nullableIds_iff.trans Expr.yieldsEmpty_rule_iff
    · cases yields with
      | terminal ends => cases ends
      | rule lookup =>
        rw [List.getElem?_eq_none outside] at lookup
        cases lookup

/-- A list that refers to itself first, and a rule that only refers to itself. -/
def listAndLoop : OrderedMap String Rule :=
  ⟨[("list", .choice [.seq [.symbol "list", .symbol "item"], .symbol "item"]),
    ("loop", .choice [.symbol "loop", .symbol "unknown"]),
    ("item", .optional (.terminal (.literal "x")))], by decide⟩

def loopAndList : OrderedMap String Rule := ⟨listAndLoop.entries.reverse, by decide⟩

/-- Both orders give the list and its items and leave the loop out, and a number beyond the
bodies derives nothing. -/
theorem nullable_listAndLoop :
    (∀ name, name ∈ Rule.nullableNames loopAndList ↔ name ∈ Rule.nullableNames listAndLoop)
      ∧ (∃ body, listAndLoop.get? "list" = some body ∧ body.DerivesEmpty listAndLoop)
      ∧ ¬ (Rule.symbol "loop").DerivesEmpty listAndLoop
      ∧ ∀ w, ¬ Expr.Yields [.symbol (.rule 1)] (.symbol (.rule 1)) w := by
  obtain ⟨-, found, named, -, -, reordered⟩ := nullable_iff_derives_nothing.1 listAndLoop
  obtain ⟨-, -, outside⟩ :=
    nullable_iff_derives_nothing.2 (fun _ => false) [.symbol (.rule 1)]
  refine ⟨reordered loopAndList (List.reverse_perm _), (found "list").1 (by decide), ?_,
    outside 1 (by decide)⟩
  rw [named "loop", ← found "loop"]
  decide

end Productions
