/-!
# File systems

What a command needs of files, as operations in some monad.  The model of a disk in `Tree` is one, the machine's own disk
another, and commands are written once for both.
-/
namespace CallPlan

/-- Why an operation on a file failed. -/
inductive FileError where
  | notFound
  | notDirectory
  | isDirectory
  | nameTooLong
  | crossDevice
  | invalidName
  | notText
  | other (text : String)
deriving DecidableEq

def FileError.message : FileError → String
  | .notFound     => "No such file or directory (os error 2)"
  | .notDirectory => "Not a directory (os error 20)"
  | .isDirectory  => "Is a directory (os error 21)"
  | .nameTooLong  => "File name too long (os error 36)"
  | .crossDevice  => "Invalid cross-device link (os error 18)"
  | .invalidName  => "file name contained an unexpected NUL byte"
  | .notText      => "stream did not contain valid UTF-8"
  | .other s      => s

structure FileSystem (m : Type → Type) where
  /-- The text of a file. -/
  readText : String → m (Except FileError String)
  /-- Whether a path leads to a file or a directory. -/
  isPresent : String → m Bool
  /-- Writes a file, new or not. -/
  create : String → String → m (Except FileError Unit)
  /-- Moves a file onto another path. -/
  rename : String → String → m (Except FileError Unit)
  /-- Copies a file onto another path. -/
  copy : String → String → m (Except FileError Unit)
  remove : String → m (Except FileError Unit)

end CallPlan
