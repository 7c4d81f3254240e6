import CallPlan.Text.Split
/-!
# Path texts

A path is a text of names divided by slashes.  Repeated slashes and single dots inside it stand for nothing; a dot in front
and double dots count as parts.  Nothing here looks at a disk.
-/
namespace CallPlan
namespace PathText

/-- The stretches between the slashes. -/
def segments (p : String) : List String := (p.toList.splitOnP (· = '/')).map String.ofList

def isAbsolute (p : String) : Bool := p.toList.head? = some '/'

/-- Whether a segment behind the first stands for nothing. -/
def isIdle (s : String) : Bool := s = "" || s = "."

def dropIdleEnd (ss : List String) : List String := (ss.reverse.dropWhile isIdle).reverse

/-- The segments without the empty ones that slashes at the end leave. -/
def dropEmptyEnd (ss : List String) : List String := (ss.reverse.dropWhile (· = "")).reverse

/-- The first segment, and the others without idle ones at the end. -/
def parts (p : String) : String × List String :=
  match segments p with
  | []      => ("", [])
  | s :: ss => (s, dropIdleEnd ss)

/-- The text of segments; the first of an absolute path is empty. -/
def ofSegments : List String → String
  | [""] => "/"
  | ss   => String.ofList (Text.joinWith ['/'] (ss.map String.toList))

/-- The path without its last part.  The root and the empty path have none. -/
def parent? (p : String) : Option String :=
  match parts p with
  | ("", [])     => none
  | (_, [])      => some ""
  | (first, ss) => some (ofSegments (first :: dropIdleEnd ss.dropLast))

/-- The last part of a path, if it is a name. -/
def fileName? (p : String) : Option String :=
  let (first, ss) := parts p
  match ss.getLast? with
  | some s => if s = ".." then none else some s
  | none   => if first = "" || first = "." || first = ".." then none else some first

/-- A path seen from a directory. -/
def join (dir p : String) : String :=
  if isAbsolute p || dir.isEmpty then p
  else if dir.toList.getLast? = some '/' then dir ++ p
  else dir ++ "/" ++ p

end PathText
end CallPlan
