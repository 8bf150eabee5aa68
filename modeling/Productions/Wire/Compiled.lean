import Productions.Compiled.Basic
import Productions.Expr.Basic
import Productions.Wire.Grammar

/-! The binary form of expressions and compiled grammars. Warnings are not written and come back
empty. -/
namespace Productions.Wire

open Codec

def encodeSymbol : Symbol → Bytes
  | .rule id => case 0 (word.encode id)
  | .lexical id => case 1 (word.encode id)
  | .external id => case 2 (word.encode id)

def decodeSymbol : Decoder Symbol := do
  match ← word.decode with
  | 0 => return .rule (← word.decode)
  | 1 => return .lexical (← word.decode)
  | 2 => return .external (← word.decode)
  | _ => throw .unknownCase

def Codec.symbol : Codec Symbol := ⟨encodeSymbol, decodeSymbol⟩

mutual

def encodeExpr : Expr → Bytes
  | .symbol s => case 0 (symbol.encode s)
  | .seq members => case 1 (size.encode members.length ++ encodeExprs members)
  | .choice members => case 2 (size.encode members.length ++ encodeExprs members)
  | .repeated content => case 3 (encodeExpr content)
  | .prec value a content =>
    case 4 (precedence.encode value ++ assoc.encode a ++ encodeExpr content)
  | .aliased content value named =>
    case 5 (encodeExpr content ++ text.encode value ++ bool.encode named)
  | .field name content => case 6 (text.encode name ++ encodeExpr content)

def encodeExprs : List Expr → Bytes
  | [] => []
  | e :: es => encodeExpr e ++ encodeExprs es

end

def decodeExpr : (depth : Nat) → Decoder Expr
  | 0 => throw .endOfInput
  | depth + 1 => do
    match ← word.decode with
    | 0 => return .symbol (← symbol.decode)
    | 1 => return .seq (← decodeList (decodeExpr depth))
    | 2 => return .choice (← decodeList (decodeExpr depth))
    | 3 => return .repeated (← decodeExpr depth)
    | 4 => return .prec (← precedence.decode) (← assoc.decode) (← decodeExpr depth)
    | 5 => return .aliased (← decodeExpr depth) (← text.decode) (← bool.decode)
    | 6 => return .field (← text.decode) (← decodeExpr depth)
    | _ => throw .unknownCase

def Codec.expr : Codec Expr := ⟨encodeExpr, do decodeExpr ((← get).length + 1)⟩

end Productions.Wire

namespace Productions

namespace Wire.Codec

def kind : Codec SymbolKind := oneOf [.nonterminal, .token, .lexical, .hidden, .supertype]

def nodeType : Codec NodeType :=
  (text.pair bool).via (fun n => (n.name, n.named)) fun (name, named) => ⟨name, named⟩

def fieldInfo : Codec FieldInfo :=
  (bool.pair (bool.pair (list nodeType))).via (fun f => (f.multiple, f.required, f.types))
    fun (multiple, required, types) => ⟨multiple, required, types⟩

def variableRule : Codec Variable :=
  (text.pair (kind.pair (expr.pair ((list text).pair (map fieldInfo))))).via
    (fun v => (v.name, v.kind, v.body, v.inlined, v.fields))
    fun (name, kind, body, inlined, fields) => ⟨name, kind, body, inlined, fields⟩

def lexicalEntry : Codec LexicalEntry :=
  (text.pair (bool.pair (rule.pair bool))).via
    (fun entry => (entry.name, entry.named, entry.content, entry.immediate))
    fun (name, named, content, immediate) => ⟨name, named, content, immediate⟩

def externalToken : Codec ExternalToken :=
  (text.pair bool).via (fun token => (token.name, token.named))
    fun (name, named) => ⟨name, named⟩

def levelEntry : Codec Level :=
  (level.pair assoc).via (fun l => (l.level, l.assoc)) fun (level, assoc) => ⟨level, assoc⟩

def levelPair : Codec Annotation :=
  ((option level).pair (assoc.pair (option level))).via
    (fun a => (a.level, a.assoc, a.dynamic)) fun (level, assoc, dynamic) => ⟨level, assoc, dynamic⟩

def resolution : Codec Resolution :=
  oneOf [.preferReduce, .preferShift, .nonAssociative, .dynamic, .unresolved]

def alternative : Codec Alternative :=
  (levelPair.pair (bool.pair (bool.pair bool))).via
    (fun a => (a.precedence, a.selfReferential, a.leftOpen, a.rightOpen))
    fun (precedence, selfReferential, leftOpen, rightOpen) =>
      ⟨precedence, selfReferential, leftOpen, rightOpen⟩

def tieBreak : Codec TieBreak :=
  (size.pair (size.pair resolution)).via (fun t => (t.reduce, t.shift, t.resolution))
    fun (reduce, shift, resolution) => ⟨reduce, shift, resolution⟩

def disambiguation : Codec Disambiguation :=
  (text.pair (word.pair ((list alternative).pair (list tieBreak)))).via
    (fun d => (d.rule, d.id, d.alternatives, d.tieBreaks))
    fun (rule, id, alternatives, tieBreaks) => ⟨rule, id, alternatives, tieBreaks⟩

def aliasInfo : Codec AliasInfo :=
  (bool.pair (list text)).via (fun a => (a.named, a.sources)) fun (named, sources) =>
    ⟨named, sources⟩

def compiled : Codec CompiledGrammar :=
  (text.pair (text.pair ((list variableRule).pair ((list lexicalEntry).pair
    ((list externalToken).pair ((list symbol).pair ((option symbol).pair
      ((list (list text)).pair ((map (list text)).pair ((map levelEntry).pair
        ((list disambiguation).pair (map aliasInfo)))))))))))).via
    (fun c => (c.name, c.start, c.vars, c.lexicon, c.externals, c.extras, c.word,
      c.conflicts, c.supertypes, c.levels, c.precedence, c.aliases))
    fun (name, start, vars, lexicon, externals, extras, word, conflicts, supertypes, levels,
        precedence, aliases) =>
      ⟨name, start, vars, lexicon, externals, extras, word, conflicts, supertypes, levels,
        precedence, aliases, []⟩

end Wire.Codec

namespace CompiledGrammar

def toBinary (c : CompiledGrammar) : Wire.Bytes := Wire.Codec.compiled.encode c

/-- Reads a compiled grammar from the front of some bytes; its numbers are not checked. -/
def ofBinary (bytes : Wire.Bytes) : Except Wire.Fault CompiledGrammar :=
  Wire.Codec.compiled.read bytes

end CompiledGrammar

end Productions
