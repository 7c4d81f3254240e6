import CallPlan.Files.FileSystem
import CallPlan.Run.Render
import CallPlan.Script.Build
/-!
# Jobs

A job is what a command line asks for: a program for a script, or selectors.  The result of a program's job goes to the
output or into a file.  A file is first written under a temporary name beside it and then moved into place.
-/
namespace CallPlan

structure PlanJob where
  /-- The path of the script; without one it is read from the input. -/
  input : Option String
  /-- The path of the file that takes the program; without one it is printed. -/
  output : Option String
  format : Format
  /-- Whether the time that planning takes is wanted. -/
  time : Bool
deriving DecidableEq

inductive Job where
  | plan (job : PlanJob)
  | selector (signatures : List String)
deriving DecidableEq

/-- What a job that succeeded prints. -/
structure Report where
  output : String
  /-- Lines about what was done, for a reader who watches. -/
  status : String
deriving DecidableEq

/-- A line with a word in bold and in a colour, and what it is about. -/
def colouredLine (colour tag text : String) : String :=
  let esc := String.singleton (Char.ofNat 0x1B)
  esc ++ "[1m" ++ esc ++ "[" ++ colour ++ "m" ++ tag ++ esc ++ "[39m" ++ esc ++ "[0m " ++ text ++ "\n"

/-- A status line: a word in green, and what it is about. -/
def statusLine (tag text : String) : String := colouredLine "32" tag text

/-- The line that tells the time of a run. -/
def timeStatus (micros : Nat) : String :=
  colouredLine "34" "TIME" ("plan: " ++ Text.decimalString micros ++ " µs")

def planStatus (p : Program) : String :=
  statusLine "PLAN"
    (Text.decimalString p.instructions.length ++ " instructions, " ++ Text.decimalString p.state.length ++ " slots")

section
variable {m : Type → Type} [Monad m]

/-! ## Writing a file -/

/-- The path of a file's temporary with a number. -/
def temporaryPath (dir name : String) (i : Nat) : String :=
  PathText.join dir (name ++ ".tmp" ++ Text.decimalString i)

/-- The number of temporary names that are tried. -/
def maxTemporaries : Nat := Nat.pow 2 32

/-- The first temporary path, from a number on, at which nothing stands. -/
def freeTemporary (fs : FileSystem m) (dir name : String) : Nat → Nat → m (Option String)
  | 0,         _ => pure none
  | tries + 1, i => do
    if ← fs.isPresent (temporaryPath dir name i) then
      freeTemporary fs dir name tries (i + 1)
    else
      return some (temporaryPath dir name i)

/-- The directory that a path's file stands in. -/
def directoryOf (path : String) : String :=
  match PathText.parent? path with
  | some dir => if dir.isEmpty then "." else dir
  | none     => "."

/-- Moves a file onto another path, or copies it there and removes it when it cannot be moved. -/
def moveFile (fs : FileSystem m) (source target : String) : m (Except FileError Unit) := do
  match ← fs.rename source target with
  | .ok ()   => return .ok ()
  | .error _ =>
    match ← fs.copy source target with
    | .ok ()   => fs.remove source
    | .error e => return .error e

/-- Writes a text to a file by way of a temporary beside it. -/
def writeFile (fs : FileSystem m) (path text : String) : m (Except Cause Unit) := do
  match PathText.fileName? path with
  | none      => return .error (.request (.outputWithoutName path))
  | some name =>
    match ← freeTemporary fs (directoryOf path) name maxTemporaries 0 with
    | none           => return .error (.file (.other "no temporary name is free"))
    | some temporary =>
      match ← fs.create temporary text with
      | .error e => return .error (.file e)
      | .ok ()   =>
        match ← moveFile fs temporary path with
        | .error e => return .error (.file e)
        | .ok ()   => return .ok ()

/-! ## Running a job -/

/-- The text of a script, from its file or from the input. -/
def readScript (fs : FileSystem m) (stdin : m (Except FileError String)) : Option String → m (Except Failure String)
  | some path => do
    match ← fs.readText path with
    | .ok text => return .ok text
    | .error e => return .error ⟨[.readingScript, .openingScript path], .file e⟩
  | none      => do
    match ← stdin with
    | .ok text => return .ok text
    | .error e => return .error ⟨[.readingScript], .file e⟩

/-- The directory from which a script's paths are seen. -/
def scriptBase : Option String → String
  | some path => (PathText.parent? path).getD ""
  | none      => "."

/-- The files at these paths. -/
def readAll (fs : FileSystem m) : List String → m (List (String × Except FileError String))
  | []      => return []
  | p :: ps => do
    let r ← fs.readText p
    return (p, r) :: (← readAll fs ps)

/-- A reader that knows these files and no others. -/
def readFrom (files : List (String × Except FileError String)) : ReadFile := fun p =>
  match files.lookup p with
  | some r => r
  | none   => .error .notFound

/-- The program of a script's text; the files that it names are read first. -/
def planWith (fs : FileSystem m) (base text : String) : m (Except Failure Program) := do
  match Script.ofText text with
  | .error f => return .error f
  | .ok s    =>
    let files ← readAll fs (s.interfacePaths.map (PathText.join base))
    return s.compile (readFrom files) base

/-- Hands a program over: to the output, or into a file. -/
def deliver (fs : FileSystem m) (job : PlanJob) (p : Program) : m (Except Failure Report) := do
  let text := p.render job.format
  match job.output with
  | none      => return .ok ⟨text, planStatus p⟩
  | some path =>
    match ← writeFile fs path text with
    | .error c => return .error ⟨[.writing path], c⟩
    | .ok ()   => return .ok ⟨"", statusLine "WRITE" path ++ planStatus p⟩

def PlanJob.run (fs : FileSystem m) (stdin : m (Except FileError String)) (job : PlanJob) :
    m (Except Failure Report) := do
  match ← readScript fs stdin job.input with
  | .error f => return .error f
  | .ok text =>
    match ← planWith fs (scriptBase job.input) text with
    | .error f => return .error f
    | .ok p    => deliver fs job p

def Job.run (fs : FileSystem m) (stdin : m (Except FileError String)) : Job → m (Except Failure Report)
  | .plan job   => job.run fs stdin
  | .selector ss =>
    match selectors ss with
    | .error f => return .error f
    | .ok text => return .ok ⟨text, ""⟩

end
end CallPlan
