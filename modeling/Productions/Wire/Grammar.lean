import Productions.Grammar.Basic
import Productions.Wire.Codec

/-! The binary form of rules and grammars. Every part of a rule takes at least one byte, so the
number of bytes bounds how deep a rule can nest. -/
namespace Productions.Wire

namespace Codec

def assoc : Codec Assoc := oneOf [.none, .left, .right, .dynamic]

def repetition : Codec Repetition := oneOf [.zeroOrMore, .oneOrMore]

def precedence : Codec Precedence :=
  (level.either text).via
    (fun
      | .integer n => .inl n
      | .name n => .inr n)
    (fun
      | .inl n => .integer n
      | .inr n => .name n)

def terminal : Codec Terminal :=
  (text.either (text.pair (option text))).via
    (fun
      | .literal t => .inl t
      | .pattern value flags => .inr (value, flags))
    (fun
      | .inl t => .literal t
      | .inr p => .pattern p.1 p.2)

end Codec

open Codec

mutual

def encodeRule : Rule → Bytes
  | .terminal t => case 0 (terminal.encode t)
  | .symbol name => case 1 (text.encode name)
  | .seq members => case 2 (size.encode members.length ++ encodeRules members)
  | .choice members => case 3 (size.encode members.length ++ encodeRules members)
  | .repeated content r => case 4 (encodeRule content ++ repetition.encode r)
  | .optional content => case 5 (encodeRule content)
  | .token content immediate => case 6 (encodeRule content ++ bool.encode immediate)
  | .prec value a content =>
    case 7 (precedence.encode value ++ assoc.encode a ++ encodeRule content)
  | .aliased content value named =>
    case 8 (encodeRule content ++ text.encode value ++ bool.encode named)
  | .field name content => case 9 (text.encode name ++ encodeRule content)

def encodeRules : List Rule → Bytes
  | [] => []
  | rule :: rules => encodeRule rule ++ encodeRules rules

end

/-- Reads a rule that nests at most `depth` deep. -/
def decodeRule : (depth : Nat) → Decoder Rule
  | 0 => throw .endOfInput
  | depth + 1 => do
    match ← word.decode with
    | 0 => return .terminal (← terminal.decode)
    | 1 => return .symbol (← text.decode)
    | 2 => return .seq (← decodeList (decodeRule depth))
    | 3 => return .choice (← decodeList (decodeRule depth))
    | 4 => return .repeated (← decodeRule depth) (← repetition.decode)
    | 5 => return .optional (← decodeRule depth)
    | 6 => return .token (← decodeRule depth) (← bool.decode)
    | 7 => return .prec (← precedence.decode) (← assoc.decode) (← decodeRule depth)
    | 8 => return .aliased (← decodeRule depth) (← text.decode) (← bool.decode)
    | 9 => return .field (← text.decode) (← decodeRule depth)
    | _ => throw .unknownCase

def Codec.rule : Codec Rule := ⟨encodeRule, do decodeRule ((← get).length + 1)⟩

end Productions.Wire

namespace Productions

namespace Wire.Codec

def definition : Codec Definition :=
  (text.pair (rule.pair bool)).via (fun d => (d.name, d.body, d.hidden))
    fun (name, body, hidden) => ⟨name, body, hidden⟩

def orderingEntry : Codec OrderingEntry :=
  (text.either text).via
    (fun
      | .name n => .inl n
      | .symbol n => .inr n)
    (fun
      | .inl n => .name n
      | .inr n => .symbol n)

def grammar : Codec Grammar :=
  (text.pair ((list definition).pair ((list rule).pair ((list (list orderingEntry)).pair
    ((list (list text)).pair ((list rule).pair ((list text).pair ((list text).pair
      (option text))))))))).via
    (fun g => (g.name, g.rules, g.extras, g.precedences, g.conflicts, g.externals, g.inlined,
      g.supertypes, g.word))
    fun (name, rules, extras, precedences, conflicts, externals, inlined, supertypes, word) =>
      ⟨name, rules, extras, precedences, conflicts, externals, inlined, supertypes, word⟩

end Wire.Codec

namespace Grammar

def toBinary (g : Grammar) : Wire.Bytes := Wire.Codec.grammar.encode g

def ofBinary (bytes : Wire.Bytes) : Except Wire.Fault Grammar := Wire.Codec.grammar.read bytes

end Grammar

end Productions
