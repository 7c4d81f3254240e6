import CallPlan.Bytes.Basic
import CallPlan.Files.FileSystem
import CallPlan.Files.Path
/-!
# A tree of files

A disk without links: files with their bytes, and directories, each at a location, which is the list of names that leads there
from the root.  Paths are followed name by name, and every name but the last must be a directory's.  A path that is too long as
a whole is refused before it is followed, a name that is too long when its turn comes.  Some locations may stand apart from each
other, as on two devices; between these a file can be copied and not moved.
-/
namespace CallPlan

inductive Node where
  | directory
  | file (bytes : Bytes)
deriving DecidableEq

abbrev Location := List String

structure Tree where
  entries : List (Location × Node)
deriving DecidableEq

namespace Tree

/-- What stands at a location.  The root is always a directory. -/
def get? (t : Tree) (l : Location) : Option Node := if l = [] then some .directory else t.entries.lookup l

def erase (t : Tree) (l : Location) : Tree := ⟨t.entries.filter (·.1 ≠ l)⟩

def put (t : Tree) (l : Location) (n : Node) : Tree := ⟨(t.erase l).entries ++ [(l, n)]⟩

/-- The greatest number of bytes in a name. -/
def maxNameBytes : Nat := 255

/-- The greatest number of bytes in a path. -/
def maxPathBytes : Nat := 4095

/-- Follows names from a location. -/
def walk (t : Tree) (here : Location) : List String → Except FileError Location
  | []      => .ok here
  | s :: ss =>
    match t.get? here with
    | none           => .error .notFound
    | some (.file _) => .error .notDirectory
    | some .directory =>
      if PathText.isIdle s then t.walk here ss
      else if s = ".." then t.walk here.dropLast ss
      else if maxNameBytes < s.utf8ByteSize then .error .nameTooLong
      else
        match t.get? (here ++ [s]) with
        | none   => .error .notFound
        | some _ => t.walk (here ++ [s]) ss

/-- Where a path starts, seen from a working directory. -/
def start (cwd : Location) (p : String) : Location := if PathText.isAbsolute p then [] else cwd

/-- The segments of a path that can be followed at all. -/
def checkedSegments (p : String) : Except FileError (List String) :=
  if p.isEmpty then .error .notFound
  else if p.toList.any (·.toNat = 0) then .error .invalidName
  else if maxPathBytes < p.utf8ByteSize then .error .nameTooLong
  else .ok (PathText.segments p)

/-- The location that a path leads to. -/
def find (t : Tree) (cwd : Location) (p : String) : Except FileError Location :=
  match checkedSegments p with
  | .error e => .error e
  | .ok ss   => t.walk (start cwd p) ss

/-- The location at which a path would put a file: its directory must be there, its last part must be a name, and no slash
may stand behind it. -/
def place (t : Tree) (cwd : Location) (p : String) : Except FileError Location :=
  match checkedSegments p with
  | .error e => .error e
  | .ok ss   =>
    let named := PathText.dropEmptyEnd ss
    match t.walk (start cwd p) named.dropLast with
    | .error e => .error e
    | .ok dir  =>
      match t.get? dir, named.getLast? with
      | none,             _      => .error .notFound
      | some (.file _),   _      => .error .notDirectory
      | some .directory,  none   => .error .isDirectory
      | some .directory,  some s =>
        if PathText.isIdle s || s = ".." || named.length < ss.length then .error .isDirectory
        else if maxNameBytes < s.utf8ByteSize then .error .nameTooLong
        else .ok (dir ++ [s])

/-- The file that a path leads to: where it stands, and its bytes. -/
def fileAt (t : Tree) (cwd : Location) (p : String) : Except FileError (Location × Bytes) :=
  match t.find cwd p with
  | .error e => .error e
  | .ok l    =>
    match t.get? l with
    | some (.file bs) => .ok (l, bs)
    | some .directory => .error .isDirectory
    | none            => .error .notFound

def readText (t : Tree) (cwd : Location) (p : String) : Except FileError String :=
  match t.fileAt cwd p with
  | .error e    => .error e
  | .ok (_, bs) =>
    match bytesText? bs with
    | some text => .ok text
    | none      => .error .notText

def isPresent (t : Tree) (cwd : Location) (p : String) : Bool :=
  match t.find cwd p with
  | .ok _    => true
  | .error _ => false

/-- Writes a file where a path leads. -/
def write (t : Tree) (cwd : Location) (p : String) (bs : Bytes) : Except FileError Tree :=
  match t.place cwd p with
  | .error e => .error e
  | .ok l    =>
    match t.get? l with
    | some .directory => .error .isDirectory
    | _               => .ok (t.put l (.file bs))

def create (t : Tree) (cwd : Location) (p text : String) : Except FileError Tree := t.write cwd p (textBytes text)

/-- Removes the file that a path leads to. -/
def remove (t : Tree) (cwd : Location) (p : String) : Except FileError Tree :=
  match t.fileAt cwd p with
  | .error e   => .error e
  | .ok (l, _) => .ok (t.erase l)

/-- Moves a file onto another path, unless that stands apart. -/
def rename (apart : Location → Location → Bool) (t : Tree) (cwd : Location) (p q : String) : Except FileError Tree :=
  match t.fileAt cwd p with
  | .error e    => .error e
  | .ok (l, bs) =>
    match t.place cwd q with
    | .error e => .error e
    | .ok dest =>
      if apart l dest then .error .crossDevice
      else
        match t.get? dest with
        | some .directory => .error .isDirectory
        | _               => .ok ((t.erase l).put dest (.file bs))

/-- Copies a file onto another path. -/
def copy (t : Tree) (cwd : Location) (p q : String) : Except FileError Tree :=
  match t.fileAt cwd p with
  | .error e    => .error e
  | .ok (_, bs) => t.write cwd q bs

/-- An operation on trees as a step that keeps the tree when it fails. -/
def step (f : Tree → Except FileError Tree) : StateM Tree (Except FileError Unit) := fun t =>
  match f t with
  | .ok t'   => (.ok (), t')
  | .error e => (.error e, t)

/-- The tree as a file system, seen from a working directory, with the locations that stand apart. -/
def fileSystem (cwd : Location) (apart : Location → Location → Bool) : FileSystem (StateM Tree) where
  readText p := fun t => (t.readText cwd p, t)
  isPresent p := fun t => (t.isPresent cwd p, t)
  create p text := step fun t => t.create cwd p text
  rename p q := step fun t => t.rename apart cwd p q
  copy p q := step fun t => t.copy cwd p q
  remove p := step fun t => t.remove cwd p

/-! ## Building and listing a tree -/

/-- The locations above one, the root apart, from the top down. -/
def above : Location → List Location
  | []      => []
  | s :: ss => if ss.isEmpty then [] else [s] :: (above ss).map (s :: ·)

/-- Puts a node and the directories above it that are missing. -/
def graft (t : Tree) (l : Location) (n : Node) : Tree :=
  ((above l).foldl (fun t d => if (t.get? d).isSome then t else t.put d .directory) t).put l n

/-- Whether nothing stands inside a directory. -/
def isEmptyAt (t : Tree) (l : Location) : Bool := !t.entries.any fun e => e.1 ≠ l && e.1.take l.length = l

/-- The files with their bytes, and the empty directories, below a location, as paths from there. -/
def leaves (t : Tree) (base : Location) : List (Location × Option Bytes) :=
  t.entries.filterMap fun (l, n) =>
    if l.length ≤ base.length || l.take base.length ≠ base then none
    else
      match n with
      | .file bs   => some (l.drop base.length, some bs)
      | .directory => if t.isEmptyAt l then some (l.drop base.length, none) else none

end Tree
end CallPlan
