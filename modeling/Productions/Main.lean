import Productions.Command.Arguments
import Productions.Command.Folder

/-! Reads the grammar file, prints notices and products, and writes files. A wish for help ends with
status 0, a failure with status 1, and refused arguments with status 2. -/
namespace Productions.Command

def FileFault.ofSystem : IO.Error → FileFault
  | .noFileOrDirectory _ code text | .inappropriateType _ code text
  | .permissionDenied _ code text | .alreadyExists _ code text | .invalidArgument _ code text
  | .resourceExhausted _ code text | .noSuchThing _ code text | .interrupted _ code text
  | .otherError code text | .resourceBusy code text | .resourceVanished code text
  | .unsupportedOperation code text | .hardwareFault code text
  | .unsatisfiedConstraints code text | .illegalOperation code text
  | .protocolError code text | .timeExpired code text => .system code.toNat text
  | .unexpectedEof => .system 0 "unexpected end of file"
  | .userError text => .system 0 text

def attempt {α : Type} (action : IO α) : IO (Except FileFault α) := do
  return (← action.toBaseIO).mapError .ofSystem

def readContent (path : String) : IO (Except FileFault Wire.Bytes) := do
  let content ← attempt <|
    if path = standardInput then do (← IO.getStdin).readBinToEnd else IO.FS.readBinFile path
  return content.map fun bytes => bytes.data.toList

def deliver : Product → IO (Except Fault Unit)
  | .nothing => return .ok ()
  | .listing text => do
    IO.print text
    return .ok ()
  | .bytes content none => do
    let output ← IO.getStdout
    output.write ⟨content.toArray⟩
    output.flush
    return .ok ()
  | .bytes content (some target) => do
    let written ← attempt (IO.FS.writeBinFile target ⟨content.toArray⟩)
    return written.mapError (.unwritable target)

def Outcome.conclude (o : Outcome) : IO UInt32 := do
  IO.eprint o.notices
  let result ← match o.result with
    | .ok product => deliver product
    | .error fault => pure (.error fault)
  match result with
  | .ok () => return 0
  | .error (.rejected rendered) =>
    IO.eprintln rendered
    return 1
  | .error fault =>
    IO.eprintln ("error: " ++ fault.message)
    return 1

end Productions.Command

open Productions.Command in
def main (arguments : List String) : IO UInt32 := do
  match Invocation.ofArguments arguments with
  | .error .helpWanted =>
    IO.println UsageFault.helpWanted.message
    return 0
  | .error fault =>
    IO.eprintln fault.message
    return 2
  | .ok i =>
    let onTerminal ← (← IO.getStderr).isTty
    (i.outcome onTerminal (← readContent i.grammar)).conclude
