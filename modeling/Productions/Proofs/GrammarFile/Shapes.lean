import Mathlib.Data.List.Perm.Basic
import Productions.GrammarFile.Reader
import Productions.Proofs.Json.Syntax

/-! The values that show a rule, an entry of an ordering or a grammar. The members of a record come
in any order, and others may be among them; a rule may also be wrapped in the name of a set of
reserved words. A grammar shows no optional rule and no named dynamic level. -/
namespace Productions.GrammarFile

open Json (Content Blanks Listed Member Prints NestsWithin)

inductive IsRecord (type : String) (fields : List (String × Content)) (omitted : List String) :
    Content → Prop where
  | object {members unknown}
      (perm : members.Perm ((typeKey, .string type) :: (fields ++ unknown)))
      (others : ∀ m ∈ unknown, m.1 ≠ typeKey ∧ m.1 ∉ fields.map Prod.fst ∧ m.1 ∉ omitted) :
      IsRecord type fields omitted (.object members)

inductive ShowsOptional : Option String → Content → Prop where
  | null : ShowsOptional none .null
  | text {s} : ShowsOptional (some s) (.string s)

inductive ShowsPrecedence : Precedence → Content → Prop where
  | level {n} (low : -2 ^ 31 ≤ n) (high : n < 2 ^ 31) : ShowsPrecedence (.integer n) (.integer n)
  | name {s} : ShowsPrecedence (.name s) (.string s)

inductive ShowsRule : Rule → Content → Prop where
  | blank {c} (record : IsRecord "BLANK" [] [] c) : ShowsRule .blank c
  | literal {s c} (record : IsRecord "STRING" [("value", .string s)] [] c) :
      ShowsRule (.terminal (.literal s)) c
  | pattern {s flags shown c} (optional : ShowsOptional flags shown)
      (record : IsRecord "PATTERN" [("value", .string s), ("flags", shown)] [] c) :
      ShowsRule (.terminal (.pattern s flags)) c
  | plainPattern {s c} (record : IsRecord "PATTERN" [("value", .string s)] ["flags"] c) :
      ShowsRule (.terminal (.pattern s none)) c
  | symbol {s c} (record : IsRecord "SYMBOL" [("name", .string s)] [] c) : ShowsRule (.symbol s) c
  | seq {rs cs c} (members : List.Forall₂ ShowsRule rs cs)
      (record : IsRecord "SEQ" [("members", .array cs)] [] c) : ShowsRule (.seq rs) c
  | choice {rs cs c} (members : List.Forall₂ ShowsRule rs cs)
      (record : IsRecord "CHOICE" [("members", .array cs)] [] c) : ShowsRule (.choice rs) c
  | repeated {type repetition r inner c}
      (known : (type, repetition) ∈ [("REPEAT", Repetition.zeroOrMore), ("REPEAT1", .oneOrMore)])
      (content : ShowsRule r inner) (record : IsRecord type [("content", inner)] [] c) :
      ShowsRule (.repeated r repetition) c
  | field {name r inner c} (content : ShowsRule r inner)
      (record : IsRecord "FIELD" [("name", .string name), ("content", inner)] [] c) :
      ShowsRule (.field name r) c
  | aliased {value named r inner c} (content : ShowsRule r inner)
      (record : IsRecord "ALIAS"
        [("content", inner), ("value", .string value), ("named", .bool named)] [] c) :
      ShowsRule (.aliased r value named) c
  | token {type immediate r inner c}
      (known : (type, immediate) ∈ [("TOKEN", false), ("IMMEDIATE_TOKEN", true)])
      (content : ShowsRule r inner) (record : IsRecord type [("content", inner)] [] c) :
      ShowsRule (.token r immediate) c
  | prec {type assoc value shown r inner c}
      (known : (type, assoc) ∈
        [("PREC", Assoc.none), ("PREC_LEFT", .left), ("PREC_RIGHT", .right)])
      (level : ShowsPrecedence value shown) (content : ShowsRule r inner)
      (record : IsRecord type [("value", shown), ("content", inner)] [] c) :
      ShowsRule (.prec value assoc r) c
  | dynamic {n r inner c} (low : -2 ^ 31 ≤ n) (high : n < 2 ^ 31) (content : ShowsRule r inner)
      (record : IsRecord "PREC_DYNAMIC" [("value", .integer n), ("content", inner)] [] c) :
      ShowsRule (.prec (.integer n) .dynamic r) c
  | reserved {context r inner c} (content : ShowsRule r inner)
      (record : IsRecord "RESERVED" [("context_name", .string context), ("content", inner)] [] c) :
      ShowsRule r c

inductive ShowsEntry : OrderingEntry → Content → Prop where
  | name {s c} (record : IsRecord "STRING" [("value", .string s)] [] c) : ShowsEntry (.name s) c
  | symbol {s c} (record : IsRecord "SYMBOL" [("name", .string s)] [] c) :
      ShowsEntry (.symbol s) c

def ShowsName (name : String) (c : Content) : Prop := c = .string name

/-- A member of the map of rules; a leading underscore in its name hides the rule. -/
def ShowsDefinition (d : Definition) (m : String × Content) : Prop :=
  m.1 = d.name ∧ ShowsRule d.body m.2 ∧ d.hidden = Grammar.isHiddenName d.name

inductive ShowsList {α : Type} (shows : α → Content → Prop) (as : List α) : Content → Prop where
  | array {cs} (items : List.Forall₂ shows as cs) : ShowsList shows as (.array cs)

def declarationKeys : List String :=
  ["name", "rules", "extras", "precedences", "conflicts", "externals", "inline", "supertypes",
    "word"]

inductive Declares (g : Grammar) : String → Content → Prop where
  | name {c} (h : ShowsName g.name c) : Declares g "name" c
  | rules {ms} (h : List.Forall₂ ShowsDefinition g.rules ms) : Declares g "rules" (.object ms)
  | extras {c} (h : ShowsList ShowsRule g.extras c) : Declares g "extras" c
  | precedences {c} (h : ShowsList (ShowsList ShowsEntry) g.precedences c) :
      Declares g "precedences" c
  | conflicts {c} (h : ShowsList (ShowsList ShowsName) g.conflicts c) : Declares g "conflicts" c
  | externals {c} (h : ShowsList ShowsRule g.externals c) : Declares g "externals" c
  | inlined {c} (h : ShowsList ShowsName g.inlined c) : Declares g "inline" c
  | supertypes {c} (h : ShowsList ShowsName g.supertypes c) : Declares g "supertypes" c
  | word {c} (h : ShowsOptional g.word c) : Declares g "word" c

/-- The keys that may be left out, if there is nothing to declare. -/
def Omits (g : Grammar) : String → Prop
  | "extras" => g.extras = []
  | "precedences" => g.precedences = []
  | "conflicts" => g.conflicts = []
  | "externals" => g.externals = []
  | "inline" => g.inlined = []
  | "supertypes" => g.supertypes = []
  | "word" => g.word = none
  | _ => False

/-- The members of a grammar file, in any order: each key stands there at most once, with a value
for it, and those that are left out have nothing to declare. Other keys have any values. -/
structure Declarations (g : Grammar) (members : List (String × Content)) : Prop where
  shown : ∀ m ∈ members, m.1 ∈ declarationKeys → Declares g m.1 m.2
  nested : ∀ m ∈ members, m.1 ∈ declarationKeys → NestsWithin (nestLimit - 1) m.2
  once : ((members.map Prod.fst).filter (· ∈ declarationKeys)).Nodup
  complete : ∀ key ∈ declarationKeys, key ∉ members.map Prod.fst → Omits g key

/-- The texts of a grammar file. The values of unknown keys need only be well-formed; all others
have numbers in the range of their type and surrogates in pairs. -/
inductive Renders (g : Grammar) : List Char → Prop where
  | object {before members text inside after} (leading : Blanks before)
      (declarations : Declarations g members)
      (prints : Listed (Member true fun m => Prints (m.1 ∈ declarationKeys) m.2) true members text)
      (inner : Blanks inside) (trailing : Blanks after) :
      Renders g (before ++ '\x7b' :: (text ++ (inside ++ '\x7d' :: after)))

end Productions.GrammarFile
