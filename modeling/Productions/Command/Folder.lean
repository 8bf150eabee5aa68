import Productions.Command.Arguments
import Productions.Compiled.Json
import Productions.Compiled.Listing
import Productions.Diagnostic.Render
import Productions.GrammarFile.Reader
import Productions.Pipeline
import Productions.Wire.Compiled
import Productions.Wire.Grammar

/-! Commands on a folder in memory. A command reads its grammar file, in binary form if its name
ends in `.bin` and as JSON text otherwise, and comes to notices for the error stream and a product
or a fault. Warnings are notices, unless they are refused like errors. -/
namespace Productions.Command

inductive FileFault where
  | system (code : Nat) (text : String)
  | notText
  deriving DecidableEq, Repr

namespace FileFault

def notFound : FileFault := system 2 "No such file or directory"
def notDirectory : FileFault := system 20 "Not a directory"
def isDirectory : FileFault := system 21 "Is a directory"

def message : FileFault → String
  | system code text => text ++ " (os error " ++ toString code ++ ")"
  | notText => "stream did not contain valid UTF-8"

end FileFault

inductive LoadFault where
  | json (fault : Json.Fault)
  | binary (fault : Wire.Fault)

def LoadFault.message : LoadFault → String
  | json .syntaxError => "JSON parse error: malformed text"
  | json .endOfInput => "JSON parse error: unexpected end of text"
  | json (.data fault) => "JSON parse error: " ++ fault.message
  | binary fault => "binary decode error: " ++ fault.message

def pathParts (path : String) : List String :=
  (path.splitOn "/").filter fun part => part != "" && part != "."

/-- What follows the last dot of a file name; a dot at the start begins no extension. -/
def extension? (name : String) : Option String :=
  let reversed := name.toList.reverse
  let ending := reversed.takeWhile (· ≠ '.')
  if (reversed.drop (ending.length + 1)).isEmpty then none
  else some (String.ofList ending.reverse)

def namesBinary (path : String) : Bool :=
  match (pathParts path).getLast? with
  | none | some ".." => false
  | some name => extension? name == some "bin"

def standardInput : String := "-"

def text? (bytes : Wire.Bytes) : Option String := String.fromUTF8? ⟨bytes.toArray⟩

def loadGrammar (path : String) (bytes : Wire.Bytes) :
    Except FileFault (Except LoadFault Grammar) :=
  if path ≠ standardInput && namesBinary path then
    .ok ((Grammar.ofBinary bytes).mapError .binary)
  else
    match text? bytes with
    | some text => .ok ((Grammar.ofFile text).mapError .json)
    | none => .error .notText

inductive Fault where
  | usage (fault : UsageFault)
  | unreadable (path : String) (fault : FileFault)
  | unwritable (path : String) (fault : FileFault)
  | malformed (path : String) (fault : LoadFault)
  | rejected (rendered : String)

def Fault.message : Fault → String
  | usage fault => fault.message
  | unreadable path fault => "failed to read '" ++ path ++ "': " ++ fault.message
  | unwritable path fault => "failed to write '" ++ path ++ "': " ++ fault.message
  | malformed path fault => "failed to parse '" ++ path ++ "': " ++ fault.message
  | rejected rendered => rendered

/-- What a command makes; bytes without a target are printed. -/
inductive Product where
  | nothing
  | listing (text : String)
  | bytes (content : Wire.Bytes) (target : Option String)
  deriving DecidableEq, Repr

structure Outcome where
  notices : String
  result : Except Fault Product

namespace Outcome

def failed (fault : Fault) : Outcome := ⟨"", .error fault⟩

end Outcome

namespace Invocation

def settings (i : Invocation) : Settings := ⟨i.start, none⟩

def encoded (c : CompiledGrammar) : Format → Wire.Bytes
  | .json => (c.toJson ++ "\n").toUTF8.data.toList
  | .binary => c.toBinary

def product (i : Invocation) (palette : Palette) (c : CompiledGrammar) : Product :=
  match i.task with
  | .compile => .bytes (encoded c i.format) i.out
  | .check => .nothing
  | .dump => .listing (c.listing palette)

def outcomeOf (i : Invocation) (palette : Palette) (g : Grammar) : Outcome :=
  let rendered := Diagnostic.render palette (some i.grammar)
  match g.compile i.settings with
  | .error failure => .failed (.rejected (rendered failure.diagnostics))
  | .ok c =>
    if c.warnings.isEmpty then ⟨"", .ok (i.product palette c)⟩
    else if i.strict then .failed (.rejected (rendered c.warnings))
    else ⟨rendered c.warnings ++ "\n", .ok (i.product palette c)⟩

def outcome (i : Invocation) (onTerminal : Bool) (content : Except FileFault Wire.Bytes) :
    Outcome :=
  match content.bind (loadGrammar i.grammar) with
  | .error fault => .failed (.unreadable i.grammar fault)
  | .ok (.error fault) => .failed (.malformed i.grammar fault)
  | .ok (.ok g) => i.outcomeOf (.ofBool (i.colouring.inEffect onTerminal)) g

end Invocation

structure Folder where
  files : OrderedMap String Wire.Bytes

namespace Folder

/-- The name of the file that a path leads to, or nothing for the folder itself. What lies
outside the folder is unknown. -/
def locate (f : Folder) (path : String) : Except FileFault (Option String) :=
  match pathParts path with
  | [] => .ok none
  | name :: more =>
    if (name :: more).all (· == "..") then .ok none
    else if path.startsWith "/" || name == ".." then .error .notFound
    else if more.isEmpty then .ok (some name)
    else if f.files.contains name then .error .notDirectory
    else .error .notFound

def endsAsFolder (path : String) : Bool := path.endsWith "/" || path.endsWith "/."

def read (f : Folder) (path : String) : Except FileFault Wire.Bytes := do
  match ← f.locate path with
  | none => .error .isDirectory
  | some name =>
    match f.files.get? name with
    | none => .error .notFound
    | some bytes => if endsAsFolder path then .error .notDirectory else .ok bytes

def write (f : Folder) (path : String) (bytes : Wire.Bytes) : Except FileFault Folder := do
  match ← f.locate path with
  | none => .error .isDirectory
  | some name =>
    if endsAsFolder path then .error .isDirectory
    else return ⟨f.files.insert name bytes⟩

def store (f : Folder) (o : Outcome) : Folder × Outcome :=
  match o.result with
  | .ok (.bytes content (some target)) =>
    match f.write target content with
    | .ok folder => (folder, o)
    | .error fault => (f, ⟨o.notices, .error (.unwritable target fault)⟩)
  | _ => (f, o)

def run (f : Folder) (input : Wire.Bytes) (arguments : List String) : Folder × Outcome :=
  match Invocation.ofArguments arguments with
  | .error fault => (f, .failed (.usage fault))
  | .ok i =>
    let content := if i.grammar = standardInput then .ok input else f.read i.grammar
    f.store (i.outcome false content)

end Folder

end Productions.Command
