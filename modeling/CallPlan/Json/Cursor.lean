import CallPlan.Json.Fault
/-!
# Reading a text from front to back

A cursor is what is left of a text and the position that it starts at.  A reader moves the cursor and gives a value or a
fault; a fault, too, leaves the cursor where it arose.  A fault is placed at the cursor, or one byte further when the next byte
is the one that does not fit, or nowhere yet when it lies in what a value says.  Lines count from one and columns in bytes, as
`serde_json` documents for the places of its errors.
-/
namespace CallPlan
namespace Json

/-- The position behind a character. -/
def Position.after (p : Position) (c : Char) : Position :=
  if c = '\n' then ⟨p.line + 1, 0⟩ else ⟨p.line, p.column + c.utf8Size⟩

structure Cursor where
  rest : List Char
  position : Position := {}

namespace Cursor

def ofText (s : String) : Cursor := ⟨s.toList, {}⟩

/-- The position so many bytes further on, which may lie inside a character. -/
def positionIn (bytes : Nat) (p : Position) : List Char → Position
  | []     => p
  | c :: s => if c.utf8Size ≤ bytes then positionIn (bytes - c.utf8Size) (p.after c) s else ⟨p.line, p.column + bytes⟩

/-- The position behind a whole text. -/
def positionBehind (p : Position) (s : List Char) : Position := s.foldl Position.after p

/-- The cursor behind the leading characters with a property. -/
def skipWhile (f : Char → Bool) (p : Position) : List Char → Cursor
  | []     => ⟨[], p⟩
  | c :: s => if f c then skipWhile f (p.after c) s else ⟨c :: s, p⟩

end Cursor

/-- A reader of values. -/
abbrev Read := EStateM Fault Cursor

namespace Read
variable {α : Type}

/-- A fault at the cursor. -/
def failHere (r : Reason) : Read α := fun c => .error ⟨r, some c.position⟩ c

/-- A fault at the next byte. -/
def failAhead (r : Reason) : Read α := fun c => .error ⟨r, some (Cursor.positionIn 1 c.position c.rest)⟩ c

/-- A fault without a place. -/
def fail (r : Reason) : Read α := fun c => .error ⟨r, none⟩ c

/-- The next character, if there is one. -/
def peek? : Read (Option Char) := fun c => .ok c.rest.head? c

/-- Steps over a character. -/
def skip : Read Unit := fun c =>
  match c.rest with
  | []     => .ok () c
  | x :: s => .ok () ⟨s, c.position.after x⟩

/-- The leading characters with a property; the cursor stays in front of them. -/
def ahead (f : Char → Bool) : Read (List Char) := fun c => .ok (c.rest.takeWhile f) c

/-- The leading characters with a property, stepped over. -/
def takeWhile (f : Char → Bool) : Read (List Char) := fun c =>
  .ok (c.rest.takeWhile f) (Cursor.skipWhile f c.position c.rest)

def isBlank (c : Char) : Bool := c = ' ' || c = '\n' || c = '\t' || c = '\r'

/-- The next character behind blanks, which are stepped over. -/
def next? : Read (Option Char) := do
  let _ ← takeWhile isBlank
  peek?

/-- Steps over a word. -/
def word : List Char → Read Unit
  | []      => pure ()
  | w :: ws => do
    match ← peek? with
    | none   => failHere .endInValue
    | some c => if c = w then do { skip; word ws } else failAhead .expectedWord

/-! ## Lists and objects -/

/-- Whether another item follows in a list. -/
def hasItem (first : Bool) : Read Bool := do
  match ← next? with
  | none     => failAhead .endInList
  | some ']' => return false
  | some c   =>
    if first then return true
    else if c = ',' then
      skip
      match ← next? with
      | none     => failAhead .endInValue
      | some ']' => failAhead .trailingComma
      | some _   => return true
    else failAhead .expectedCommaOrBracket

/-- Whether another member follows in an object. -/
def hasMember (first : Bool) : Read Bool := do
  match ← next? with
  | none        => failAhead .endInObject
  | some '\x7d' => return false
  | some c      =>
    if first then
      if c = '"' then return true else failAhead .keyIsNoString
    else if c = ',' then
      skip
      match ← next? with
      | none        => failAhead .endInValue
      | some '"'    => return true
      | some '\x7d' => failAhead .trailingComma
      | some _      => failAhead .keyIsNoString
    else failAhead .expectedCommaOrBrace

/-- Steps over the colon behind a key. -/
def colon : Read Unit := do
  match ← next? with
  | none     => failAhead .endInObject
  | some ':' => skip
  | some _   => failAhead .expectedColon

/-- Steps over the end of a list. -/
def endList : Read Unit := do
  match ← next? with
  | none     => failAhead .endInList
  | some ']' => skip
  | some ',' => do
    skip
    match ← next? with
    | some ']' => failAhead .trailingComma
    | _        => failAhead .trailingCharacters
  | some _   => failAhead .trailingCharacters

/-- Steps over the end of an object. -/
def endObject : Read Unit := do
  match ← next? with
  | none        => failAhead .endInObject
  | some '\x7d' => skip
  | some ','    => failAhead .trailingComma
  | some _      => failAhead .trailingCharacters

/-- Steps over an opening bracket, reads what is inside, and steps over the end.  The end is looked for behind a fault as well,
and a fault without a place is placed there. -/
def enclosed (finish : Read Unit) (body : Read α) : Read α := do
  skip
  fun c =>
    match body c with
    | .ok a c'    =>
      match finish c' with
      | .ok () c''   => .ok a c''
      | .error f c'' => .error f c''
    | .error f c' =>
      match finish c' with
      | .ok () c''   => .error (f.placedAt c''.position) c''
      | .error _ c'' => .error (f.placedAt c''.position) c''

/-- The items of a list up to its end, at most so many. -/
def itemsFrom (item : Read α) : Nat → Bool → Read (List α)
  | 0,         _     => failAhead .endInList
  | steps + 1, first => do
    if ← hasItem first then
      let a ← item
      return a :: (← itemsFrom item steps false)
    else
      return []

/-- The items of a list up to its end.  Each takes at least a character. -/
def items (item : Read α) : Read (List α) := fun c => itemsFrom item (c.rest.length + 1) true c

/-- The end of the text. -/
def endOfText : Read Unit := do
  match ← next? with
  | none   => pure ()
  | some _ => failAhead .trailingCharacters

end Read

/-- What a reader gives for a whole text. -/
def readAll {α : Type} (r : Read α) (text : String) : Except Fault α :=
  match r (.ofText text) with
  | .error f _ => .error f
  | .ok a c    =>
    match Read.endOfText c with
    | .error f _ => .error f
    | .ok () _   => .ok a

end Json
end CallPlan
