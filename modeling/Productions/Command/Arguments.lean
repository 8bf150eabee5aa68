/-! Command lines. They ask for one of three tasks, with the grammar file and settings, each given
at most once. Arguments are taken up from the left; a value stands in the same argument as the name
of its option or in the next one, unless that one looks like an option. After `--` no argument is an
option. -/
namespace Productions.Command

inductive Format where
  | json
  | binary
  deriving DecidableEq, Repr

def Format.ofName? : String → Option Format
  | "json" => some .json
  | "binary" => some .binary
  | _ => none

inductive Colouring where
  | auto
  | always
  | never
  deriving DecidableEq, Repr

def Colouring.ofName? : String → Option Colouring
  | "auto" => some .auto
  | "always" => some .always
  | "never" => some .never
  | _ => none

/-- Text is coloured by itself only on a terminal. -/
def Colouring.inEffect (onTerminal : Bool) : Colouring → Bool
  | auto => onTerminal
  | always => true
  | never => false

inductive Task where
  | compile
  | check
  | dump
  deriving DecidableEq, Repr

def Task.ofName? : String → Option Task
  | "compile" => some .compile
  | "check" => some .check
  | "dump" => some .dump
  | _ => none

inductive Setting where
  | grammar
  | out
  | format
  | start
  | colour
  deriving DecidableEq, Repr

/-- Why arguments are refused. Asking for help ends the reading of arguments too. -/
inductive UsageFault where
  | helpWanted
  | nothingAsked
  | missingTask
  | unknownTask
  | missingGrammar
  | unknownArgument
  | repeatedArgument
  | invalidValue
  | unwantedValue
  deriving DecidableEq, Repr

def UsageFault.message : UsageFault → String
  | helpWanted | nothingAsked =>
    "Usage: compile|check|dump GRAMMAR [OPTIONS]\n\n"
      ++ "  -o, --out FILE       write to FILE (compile)\n"
      ++ "      --format FORMAT  json or binary (compile)\n"
      ++ "      --start RULE     start rule, the first rule unless given\n"
      ++ "      --strict         refuse warnings (compile, check)\n"
      ++ "      --color WHEN     auto, always or never\n"
      ++ "  -v, --verbose        log more\n"
      ++ "  -h, --help           show this text"
  | missingTask => "error: a command is required"
  | unknownTask => "error: unknown command"
  | missingGrammar => "error: a grammar file is required"
  | unknownArgument => "error: unexpected argument"
  | repeatedArgument => "error: an option is given more than once"
  | invalidValue => "error: an option has no value or an unknown one"
  | unwantedValue => "error: an option that takes no value is given one"

structure Given where
  grammar : Option String
  out : Option String
  format : Option Format
  start : Option String
  strict : Bool
  colour : Option Colouring
  deriving DecidableEq, Repr

namespace Given

def nothing : Given := ⟨none, none, none, none, false, none⟩

def once {α : Type} (known value : Option α) : Except UsageFault (Option α) :=
  match known, value with
  | some _, _ => .error .repeatedArgument
  | none, none => .error .invalidValue
  | none, some a => .ok (some a)

def path? (text : String) : Option String := if text.isEmpty then none else some text

def set (g : Given) (setting : Setting) (text : String) : Except UsageFault Given := do
  match setting with
  | .grammar => return { g with grammar := ← once g.grammar (path? text) }
  | .out => return { g with out := ← once g.out (path? text) }
  | .format => return { g with format := ← once g.format (Format.ofName? text) }
  | .start => return { g with start := ← once g.start (some text) }
  | .colour => return { g with colour := ← once g.colour (Colouring.ofName? text) }

def beStrict (g : Given) : Except UsageFault Given :=
  if g.strict then .error .repeatedArgument else .ok { g with strict := true }

end Given

structure Invocation where
  task : Task
  grammar : String
  out : Option String
  format : Format
  start : Option String
  strict : Bool
  colouring : Colouring
  deriving DecidableEq, Repr

/-- The grammar file has to be given; the compiled grammar is written as JSON unless asked
otherwise. -/
def Given.invocation (g : Given) (task : Task) : Except UsageFault Invocation :=
  match g.grammar with
  | none => .error .missingGrammar
  | some grammar => .ok {
      task, grammar
      out := g.out
      format := g.format.getD .json
      start := g.start
      strict := g.strict
      colouring := g.colour.getD .auto }

inductive Shape where
  | divider
  | long (name : String) (value : Option String)
  | short (letters : List Char)
  | plain
  deriving DecidableEq, Repr

def attached? : List Char → Option String
  | '=' :: value => some (String.ofList value)
  | _ => none

def Shape.ofArgument (argument : String) : Shape :=
  match argument.toList with
  | ['-', '-'] => .divider
  | '-' :: '-' :: rest =>
    .long (String.ofList (rest.takeWhile (· ≠ '='))) (attached? (rest.dropWhile (· ≠ '=')))
  | '-' :: c :: cs => .short (c :: cs)
  | _ => .plain

inductive Switch where
  | help
  | verbose
  | strict
  deriving DecidableEq, Repr

inductive Choice where
  | switch (s : Switch)
  | setting (s : Setting)
  deriving DecidableEq, Repr

namespace Choice

def ofLong? : String → Option Choice
  | "help" => some (switch .help)
  | "verbose" => some (switch .verbose)
  | "strict" => some (switch .strict)
  | "out" => some (setting .out)
  | "format" => some (setting .format)
  | "start" => some (setting .start)
  | "color" => some (setting .colour)
  | _ => none

def ofShort? : Char → Option Choice
  | 'h' => some (switch .help)
  | 'v' => some (switch .verbose)
  | 'o' => some (setting .out)
  | _ => none

def everywhere : List Choice := [switch .help, switch .verbose]

end Choice

def Task.choices : Task → List Choice
  | compile => Choice.everywhere
      ++ [.switch .strict, .setting .out, .setting .format, .setting .start, .setting .colour]
  | check => Choice.everywhere ++ [.switch .strict, .setting .start, .setting .colour]
  | dump => Choice.everywhere ++ [.setting .start, .setting .colour]

/-- The settings taken up, and the one named last with the value found for it. -/
structure Progress where
  given : Given
  pending : Option (Setting × Option String)

namespace Progress

def start : Progress := ⟨.nothing, none⟩

def settle (p : Progress) : Except UsageFault Progress :=
  match p.pending with
  | none => .ok p
  | some (_, none) => .error .invalidValue
  | some (s, some text) => return ⟨← p.given.set s text, none⟩

def takeSwitch (p : Progress) (s : Switch) : Except UsageFault Progress := do
  let p ← p.settle
  match s with
  | .help => .error .helpWanted
  | .verbose => return p
  | .strict => return ⟨← p.given.beStrict, none⟩

def takeSetting (p : Progress) (s : Setting) (value : Option String) :
    Except UsageFault Progress := do
  let p ← p.settle
  match value with
  | some text => return ⟨← p.given.set s text, none⟩
  | none => return ⟨p.given, some (s, none)⟩

def takeLong (known : List Choice) (p : Progress) (name : String) (value : Option String) :
    Except UsageFault Progress :=
  match (Choice.ofLong? name).filter (· ∈ known), value with
  | none, _ => .error .unknownArgument
  | some (.switch _), some _ => .error .unwantedValue
  | some (.switch s), none => p.takeSwitch s
  | some (.setting s), value => p.takeSetting s value

/-- Switches may share an argument; what follows the letter of a setting is its value. -/
def takeShort (known : List Choice) (p : Progress) : List Char → Except UsageFault Progress
  | [] => .ok p
  | c :: cs => do
    match (Choice.ofShort? c).filter (· ∈ known) with
    | none => .error .unknownArgument
    | some (.switch s) => takeShort known (← p.takeSwitch s) cs
    | some (.setting s) =>
      p.takeSetting s
        (if cs.isEmpty then none else some ((attached? cs).getD (String.ofList cs)))

def namesGrammar (p : Progress) : Bool :=
  p.given.grammar.isSome || (p.pending.map Prod.fst) == some .grammar

def takeGrammar (p : Progress) (argument : String) : Except UsageFault Progress := do
  if p.namesGrammar then .error .unknownArgument
  else return ⟨(← p.settle).given, some (.grammar, some argument)⟩

def takePlain (p : Progress) (argument : String) : Except UsageFault Progress :=
  match p.pending with
  | some (s, none) => .ok ⟨p.given, some (s, some argument)⟩
  | _ => p.takeGrammar argument

def takeAll (known : List Choice) (p : Progress) : List String → Except UsageFault Progress
  | [] => p.settle
  | argument :: rest => do
    match Shape.ofArgument argument with
    | .divider => (← rest.foldlM takeGrammar p).settle
    | .long name value => takeAll known (← p.takeLong known name value) rest
    | .short letters => takeAll known (← p.takeShort known letters) rest
    | .plain => takeAll known (← p.takePlain argument) rest

end Progress

def Task.invocation (task : Task) (arguments : List String) : Except UsageFault Invocation := do
  (← Progress.start.takeAll task.choices arguments).given.invocation task

def isTaskName (name : String) : Bool := name == "help" || (Task.ofName? name).isSome

/-- Help can be asked for on one task or on help itself. -/
def helpFault : List String → UsageFault
  | [] => .helpWanted
  | [name] => if isTaskName name then .helpWanted else .unknownTask
  | _ => .unknownTask

namespace Invocation

def missing (asked : Bool) : UsageFault := if asked then .missingTask else .nothingAsked

/-- Before the task only help and verbosity can be asked for, and after `--` no task is taken. -/
def ofArgumentsAfter (asked : Bool) : List String → Except UsageFault Invocation
  | [] => .error (missing asked)
  | argument :: rest => do
    if argument = "help" then .error (helpFault rest)
    else if let some task := Task.ofName? argument then task.invocation rest
    else
      match Shape.ofArgument argument with
      | .divider =>
        match rest with
        | [] => .error (missing asked)
        | name :: _ => .error (if isTaskName name then .unknownArgument else .unknownTask)
      | .long name value =>
        let _ ← Progress.start.takeLong Choice.everywhere name value
        ofArgumentsAfter true rest
      | .short letters =>
        let _ ← Progress.start.takeShort Choice.everywhere letters
        ofArgumentsAfter true rest
      | .plain => .error .unknownTask

def ofArguments (arguments : List String) : Except UsageFault Invocation :=
  ofArgumentsAfter false arguments

end Invocation

end Productions.Command
