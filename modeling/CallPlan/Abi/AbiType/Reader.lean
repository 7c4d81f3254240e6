import CallPlan.Abi.AbiType.Basic
import CallPlan.Abi.Error
/-!
# Reading a type

A type text is a base name, an element type with a dimension in brackets behind it, or members in parentheses, which the
word `tuple` may precede.  The last dimension is the outermost.  An error quotes the part of the text at which reading
stopped.
-/
namespace CallPlan
namespace AbiType

/-- The text without the word `tuple` in front of an open parenthesis. -/
def dropTupleWord (s : List Char) : List Char :=
  match Text.dropWord? "tuple".toList s with
  | some ('(' :: r) => '(' :: r
  | _               => s

/-- The text between the parentheses that a text starts and ends with. -/
def members? : List Char → Option (List Char)
  | '(' :: s => Text.stripEnd? ')' s
  | _        => none

/-- An integer width: a multiple of 8 from 8 to 256. -/
def readWidth? (s : List Char) : Option Nat :=
  match Text.readCount? s with
  | some n => if n % 8 = 0 ∧ 8 ≤ n ∧ n ≤ 256 then some n else none
  | none   => none

/-- The length of a byte string type: 1 to 32. -/
def readByteCount? (s : List Char) : Option Nat :=
  match Text.readCount? s with
  | some n => if 1 ≤ n ∧ n ≤ 32 then some n else none
  | none   => none

/-- A type without members: its full name, a short form, or a family name with a number. -/
def readBase? (s : List Char) : Option AbiType :=
  if s = "address".toList then some .address
  else if s = "bool".toList then some .bool
  else if s = "string".toList then some .string
  else if s = "bytes".toList then some .bytes
  else if s = "byte".toList then some (.fixedBytes 1)
  else if s = "uint".toList then some (.uint 256)
  else if s = "int".toList then some (.int 256)
  else
    match Text.dropWord? "uint".toList s with
    | some n => (readWidth? n).map .uint
    | none   =>
      match Text.dropWord? "int".toList s with
      | some n => (readWidth? n).map .int
      | none   =>
        match Text.dropWord? "bytes".toList s with
        | some n => (readByteCount? n).map .fixedBytes
        | none   => none

theorem length_dropTupleWord_le (s : List Char) : (dropTupleWord s).length ≤ s.length := by
  unfold dropTupleWord
  split
  · rename_i r h
    have := congrArg List.length ((Text.dropWord?_eq_some_iff _ _ _).1 h)
    simp at this ⊢
    omega
  · exact Nat.le_refl _

theorem length_of_members? {s r : List Char} (h : members? s = some r) : r.length < s.length := by
  unfold members? at h
  split at h
  · have := Text.length_of_stripEnd? h
    simp only [List.length_cons]
    omega
  · cases h

/-- Reads a type from a text without blanks at its ends. -/
def read (s : List Char) : Except AbiError AbiType :=
  let invalid : AbiError := .invalidType (String.ofList s)
  match _h : Text.stripEnd? ']' (dropTupleWord s) with
  | some dimensioned =>
    match _h' : Text.splitLast? '[' dimensioned with
    | none                 => .error invalid
    | some (element, size) => do
      let inner ← read element
      if size.isEmpty then
        return .array inner
      match Text.readCount? size with
      | some n => return .fixedArray inner n
      | none   => throw invalid
  | none =>
    match _h' : members? (dropTupleWord s) with
    | some list => do
      let types ← (Text.pieces list).attach.mapM fun ⟨p, _⟩ => read (Text.trim p)
      return .tuple types
    | none =>
      match readBase? (dropTupleWord s) with
      | some base => .ok base
      | none      => .error invalid
termination_by s.length
decreasing_by
  · have h1 := length_dropTupleWord_le s
    have h2 := Text.length_of_stripEnd? _h
    have h3 := congrArg List.length (Text.eq_of_splitLast? _ _ _ _h')
    simp only [List.length_append, List.length_cons] at h3
    omega
  · have h1 := length_dropTupleWord_le s
    have h2 := length_of_members? _h'
    have h3 := Text.length_le_of_mem_pieces ‹p ∈ Text.pieces list›
    have h4 := Text.length_trim_le p
    omega

/-- The type that a text writes, blanks at the ends allowed. -/
def ofText (s : String) : Except AbiError AbiType := read (Text.trim s.toList)

end AbiType
end CallPlan
