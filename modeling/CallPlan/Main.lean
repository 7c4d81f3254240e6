import CallPlan.Run.Program
/-!
# The executable

The machine's disk as a file system, and the entry point.  Everything that is decided is decided in `runProgram`; here
bytes are read and written.
-/
namespace CallPlan
namespace Disk

/-- The number and the text that the operating system has for an error. -/
def systemError? : IO.Error → Option (UInt32 × String)
  | .alreadyExists _ code text        => some (code, text)
  | .otherError code text             => some (code, text)
  | .resourceBusy code text           => some (code, text)
  | .resourceVanished code text       => some (code, text)
  | .unsupportedOperation code text   => some (code, text)
  | .hardwareFault code text          => some (code, text)
  | .unsatisfiedConstraints code text => some (code, text)
  | .illegalOperation code text       => some (code, text)
  | .protocolError code text          => some (code, text)
  | .timeExpired code text            => some (code, text)
  | .interrupted _ code text          => some (code, text)
  | .noFileOrDirectory _ code text    => some (code, text)
  | .invalidArgument _ code text      => some (code, text)
  | .permissionDenied _ code text     => some (code, text)
  | .resourceExhausted _ code text    => some (code, text)
  | .inappropriateType _ code text    => some (code, text)
  | .noSuchThing _ code text          => some (code, text)
  | .unexpectedEof                    => none
  | .userError _                      => none

/-- The number of an error without the sign that some operations give it. -/
def errorNumber (code : UInt32) : Nat := min code.toNat (0 - code).toNat

def fileError (e : IO.Error) : FileError :=
  match (systemError? e).map fun (code, text) => (errorNumber code, text) with
  | none              => .other (toString e)
  | some (2, _)       => .notFound
  | some (18, _)      => .crossDevice
  | some (20, _)      => .notDirectory
  | some (21, _)      => .isDirectory
  | some (36, _)      => .nameTooLong
  | some (code, text) => .other (text ++ " (os error " ++ Text.decimalString code ++ ")")

/-- The result of an action on paths, with its failure as a value.  No name holds the character zero. -/
def attempt {α : Type} (paths : List String) (act : IO α) : IO (Except FileError α) := do
  if paths.any fun p => p.toList.any (·.toNat = 0) then
    return .error .invalidName
  match ← act.toBaseIO with
  | .ok a    => return .ok a
  | .error e => return .error (fileError e)

def asText (bs : ByteArray) : Except FileError String :=
  match String.fromUTF8? bs with
  | some s => .ok s
  | none   => .error .notText

def readText (p : String) : IO (Except FileError String) := do
  match ← attempt [p] (IO.FS.readBinFile p) with
  | .ok bs   => return asText bs
  | .error e => return .error e

def isPresent (p : String) : IO Bool := do
  match ← attempt [p] (IO.FS.Handle.mk p .read) with
  | .ok _    => return true
  | .error _ => return false

def copy (p q : String) : IO Unit := do
  let bs ← IO.FS.readBinFile p
  IO.FS.writeBinFile q bs

def fileSystem : FileSystem IO where
  readText := readText
  isPresent := isPresent
  create p text := attempt [p] (IO.FS.writeFile p text)
  rename p q := attempt [p, q] (IO.FS.rename p q)
  copy p q := attempt [p, q] (copy p q)
  remove p := attempt [p] (IO.FS.removeFile p)

/-- Everything that is left on a stream. -/
partial def drain (stream : IO.FS.Stream) (bs : ByteArray) : IO ByteArray := do
  let chunk ← stream.read 65536
  if chunk.isEmpty then return bs else drain stream (bs ++ chunk)

def readInput : IO (Except FileError String) := do
  match ← attempt [] (do drain (← IO.getStdin) .empty) with
  | .ok bs   => return asText bs
  | .error e => return .error e

end Disk
end CallPlan

open CallPlan in
def main (args : List String) : IO UInt32 := do
  let began ← IO.monoNanosNow
  let outcome ← runProgram Disk.fileSystem Disk.readInput args
  IO.print outcome.output
  (← IO.getStderr).putStr outcome.errors
  if outcome.timed then
    let micros := ((← IO.monoNanosNow) - began) / 1000
    (← IO.getStderr).putStr (timeStatus micros)
  return UInt32.ofNat outcome.code
