import CallPlan.Run.Job
/-!
# Command lines

A command line is options, a command, and the command's own options and operands.  Options are long (`--name`, `--name value`,
`--name=value`) or short (`-n`, `-n value`, `-nvalue`, `-n=value`), short flags can be strung together, and behind `--` all
is operand.  Only the verbosity may be repeated.  A request for help or for the version counts from where it stands: what
comes before it must be right.

The value of an option that follows it as a word of its own is examined when the next option or operand is met or the
arguments end.  The word of a command does not count for that, so the options of a command come before a value that waits.
-/
namespace CallPlan
namespace CommandLine

/-- What an option takes. -/
inductive OptionKind where
  | flag
  /-- A flag that may be repeated. -/
  | count
  /-- One value, of those allowed. -/
  | value (allowed : String → Bool)
  | help
  | version

structure OptionSpec where
  name : String
  short : Option Char
  kind : OptionKind

/-- Why reading a command line ends before there is a job. -/
inductive Stop where
  | help
  | version
  | misuse
deriving DecidableEq

/-- What has been read of one level of a command line. -/
structure Reading where
  /-- The options so far with their values. -/
  seen : List (String × String) := []
  /-- An option whose value is still to come, or to be examined. -/
  waiting : Option (OptionSpec × Option String) := none
  operands : List String := []

namespace Reading

def has (r : Reading) (name : String) : Bool := (r.seen.lookup name).isSome

/-- Takes note of an option that may occur once. -/
def note (r : Reading) (spec : OptionSpec) (v : String) : Except Stop Reading :=
  if r.has spec.name then .error .misuse else .ok { r with seen := r.seen ++ [(spec.name, v)] }

/-- Takes note of a value for an option. -/
def noteValue (r : Reading) (spec : OptionSpec) (v : String) : Except Stop Reading :=
  match spec.kind with
  | .value allowed => if allowed v then r.note spec v else .error .misuse
  | _              => .error .misuse

/-- Examines the value that waits. -/
def settle (r : Reading) : Except Stop Reading :=
  match r.waiting with
  | none                => .ok r
  | some (_, none)      => .error .misuse
  | some (spec, some v) => { r with waiting := none }.noteValue spec v

/-- An option without a value. -/
def flag (r : Reading) (spec : OptionSpec) : Except Stop Reading := do
  let r ← r.settle
  match spec.kind with
  | .flag    => r.note spec ""
  | .count   => return r
  | .help    => throw .help
  | .version => throw .version
  | .value _ => return { r with waiting := some (spec, none) }

/-- An option with a value attached. -/
def attached (r : Reading) (spec : OptionSpec) (v : String) : Except Stop Reading :=
  match spec.kind with
  | .value _ => do (← r.settle).noteValue spec v
  | _        => .error .misuse

/-- Whether the next word is the value of an option. -/
def wantsValue (r : Reading) : Bool :=
  match r.waiting with
  | some (_, none) => true
  | _              => false

/-- The value of the option that wants one. -/
def giveValue (r : Reading) (v : String) : Reading :=
  match r.waiting with
  | some (spec, _) => { r with waiting := some (spec, some v) }
  | none           => r

end Reading

/-- A level of a command line: its options, and which operands it takes after those it has. -/
structure Level where
  options : List OptionSpec
  takes : List String → String → Bool

namespace Level

def long? (l : Level) (name : String) : Option OptionSpec := l.options.find? (·.name = name)

def short? (l : Level) (c : Char) : Option OptionSpec := l.options.find? (·.short = some c)

/-- A long option, the text starting behind its two dashes. -/
def readLong (l : Level) (r : Reading) (s : List Char) : Except Stop Reading :=
  match Text.splitFirst? '=' s with
  | some (name, v) =>
    match l.long? (String.ofList name) with
    | some spec => r.attached spec (String.ofList v)
    | none      => .error .misuse
  | none =>
    match l.long? (String.ofList s) with
    | some spec => r.flag spec
    | none      => .error .misuse

/-- Short options strung together, the text starting behind the dash. -/
def readShorts (l : Level) (r : Reading) : List Char → Except Stop Reading
  | []     => .ok r
  | c :: s =>
    match l.short? c with
    | none      => .error .misuse
    | some spec =>
      match spec.kind with
      | .value _ =>
        match s with
        | []       => r.flag spec
        | '=' :: v => r.attached spec (String.ofList v)
        | v        => r.attached spec (String.ofList v)
      | _ =>
        match r.flag spec with
        | .error e => .error e
        | .ok r'   => l.readShorts r' s

def readOperand (l : Level) (r : Reading) (a : String) : Except Stop Reading := do
  let r ← r.settle
  if l.takes r.operands a then return { r with operands := r.operands ++ [a] } else throw .misuse

/-- One argument that is no command. -/
def readArgument (l : Level) (r : Reading) (a : String) : Except Stop Reading :=
  match a.toList with
  | '-' :: '-' :: s => l.readLong r s
  | '-' :: c :: s   => l.readShorts r (c :: s)
  | _               => if r.wantsValue then .ok (r.giveValue a) else l.readOperand r a

def readOperands (l : Level) (r : Reading) : List String → Except Stop Reading
  | []      => .ok r
  | a :: as =>
    match l.readOperand r a with
    | .error e => .error e
    | .ok r'   => l.readOperands r' as

/-- All arguments of a level that has no commands. -/
def readAll (l : Level) (r : Reading) : List String → Except Stop Reading
  | []      => r.settle
  | a :: as =>
    if a = "--" then
      match l.readOperands r as with
      | .error e => .error e
      | .ok r'   => r'.settle
    else
      match l.readArgument r a with
      | .error e => .error e
      | .ok r'   => l.readAll r' as

end Level

/-! ## The options and commands of this program -/

def shared : List OptionSpec :=
  [⟨"verbose", some 'v', .count⟩, ⟨"quiet", some 'q', .flag⟩,
   ⟨"color", none, .value fun v => ["auto", "always", "never"].contains v⟩, ⟨"help", some 'h', .help⟩]

/-- A path must not be empty. -/
def isPath (v : String) : Bool := !v.isEmpty

def rootLevel : Level := ⟨⟨"version", some 'V', .version⟩ :: shared, fun _ _ => false⟩

def planLevel : Level where
  options :=
    ⟨"output", some 'o', .value isPath⟩ :: ⟨"format", some 'f', .value fun v => ["json", "disasm"].contains v⟩
      :: ⟨"time", none, .flag⟩ :: shared
  takes before a := before.isEmpty && isPath a

def selectorLevel : Level := ⟨shared, fun _ _ => true⟩

/-- The names of the commands. -/
def commandNames : List String := ["plan", "selector", "help"]

def planTask (r : Reading) : PlanJob where
  input := r.operands.head?.filter (· ≠ "-")
  output := r.seen.lookup "output"
  format := if r.seen.lookup "format" = some "disasm" then .listing else .json
  time := r.has "time"

/-- The job of a command, from its arguments. -/
def readCommand (name : String) (args : List String) : Except Stop Job :=
  if name = "help" then
    match args with
    | []  => .error .help
    | [c] => if commandNames.contains c then .error .help else .error .misuse
    | _   => .error .misuse
  else if name = "plan" then do
    return .plan (planTask (← planLevel.readAll {} args))
  else do
    let r ← selectorLevel.readAll {} args
    if r.operands.isEmpty then throw .misuse
    return .selector r.operands

/-- The job of a command line.  The value that waits in front of a command is examined behind it. -/
def readFrom (r : Reading) : List String → Except Stop Job
  | []      => .error .misuse
  | a :: as =>
    if !r.wantsValue && commandNames.contains a then do
      let job ← readCommand a as
      let _ ← r.settle
      return job
    else if a = "--" then .error .misuse
    else
      match rootLevel.readArgument r a with
      | .error e => .error e
      | .ok r'   => readFrom r' as

def read (args : List String) : Except Stop Job := readFrom {} args

end CommandLine
end CallPlan
