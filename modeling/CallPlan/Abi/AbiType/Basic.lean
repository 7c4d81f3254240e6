import CallPlan.Text.Numeral
import CallPlan.Text.Split
/-!
# Parameter types

The types that a function declares for its parameters.  `isDynamic` is the planner's classification, by the outermost
constructor alone: such a value is kept in its slot as a blob.  `usesOffset` is the layout's: such a value is reached
through an offset word.  The two differ on `uint256[2]` and on tuples of plain words.
-/
namespace CallPlan

inductive AbiType where
  | address
  | bool
  | uint (bits : Nat)
  | int (bits : Nat)
  | fixedBytes (size : Nat)
  | bytes
  | string
  | array (element : AbiType)
  | fixedArray (element : AbiType) (size : Nat)
  | tuple (members : List AbiType)
deriving Inhabited

namespace AbiType

/-! ## Equality

Types nest through lists, so equality is decided by a pair of functions, one on types and one on lists of them. -/

mutual
def same : AbiType → AbiType → Bool
  | .address,        .address        => true
  | .bool,           .bool           => true
  | .uint m,         .uint n         => m == n
  | .int m,          .int n          => m == n
  | .fixedBytes m,   .fixedBytes n   => m == n
  | .bytes,          .bytes          => true
  | .string,         .string         => true
  | .array s,        .array t        => same s t
  | .fixedArray s m, .fixedArray t n => same s t && m == n
  | .tuple ss,       .tuple ts       => sameAll ss ts
  | _,               _               => false

def sameAll : List AbiType → List AbiType → Bool
  | [],      []      => true
  | s :: ss, t :: ts => same s t && sameAll ss ts
  | _,       _       => false
end

mutual
theorem same_iff : ∀ (s t : AbiType), same s t = true ↔ s = t
  | .address,        t => by cases t <;> simp [same]
  | .bool,           t => by cases t <;> simp [same]
  | .uint m,         t => by cases t <;> simp [same]
  | .int m,          t => by cases t <;> simp [same]
  | .fixedBytes m,   t => by cases t <;> simp [same]
  | .bytes,          t => by cases t <;> simp [same]
  | .string,         t => by cases t <;> simp [same]
  | .array s,        t => by cases t <;> simp [same, same_iff s]
  | .fixedArray s m, t => by cases t <;> simp [same, same_iff s]
  | .tuple ss,       t => by cases t <;> simp [same, sameAll_iff ss]

theorem sameAll_iff : ∀ (ss ts : List AbiType), sameAll ss ts = true ↔ ss = ts
  | [],      ts => by cases ts <;> simp [sameAll]
  | s :: ss, ts => by cases ts <;> simp [sameAll, same_iff s, sameAll_iff ss]
end

instance : DecidableEq AbiType := fun s t => decidable_of_iff _ (same_iff s t)

/-! ## Classification -/

def bytesArray : AbiType := .array .bytes

/-- Whether a value of the type is kept in its slot as a blob. -/
def isDynamic : AbiType → Bool
  | .bytes | .string | .array _ | .fixedArray _ _ | .tuple _ => true
  | _                                                       => false

mutual
/-- Whether a value of the type is reached through an offset word. -/
def usesOffset : AbiType → Bool
  | .bytes | .string | .array _ => true
  | .fixedArray t _             => t.usesOffset
  | .tuple ts                   => anyUsesOffset ts
  | _                           => false

def anyUsesOffset : List AbiType → Bool
  | []      => false
  | t :: ts => t.usesOffset || anyUsesOffset ts
end

/-! ## Canonical text -/

mutual
/-- The canonical text of a type. -/
def chars : AbiType → List Char
  | .address        => "address".toList
  | .bool           => "bool".toList
  | .uint n         => "uint".toList ++ Text.decimal n
  | .int n          => "int".toList ++ Text.decimal n
  | .fixedBytes n   => "bytes".toList ++ Text.decimal n
  | .bytes          => "bytes".toList
  | .string         => "string".toList
  | .array t        => t.chars ++ ['[', ']']
  | .fixedArray t n => t.chars ++ '[' :: Text.decimal n ++ [']']
  | .tuple ts       => '(' :: Text.joinWith [','] (charsAll ts) ++ [')']

def charsAll : List AbiType → List (List Char)
  | []      => []
  | t :: ts => t.chars :: charsAll ts
end

def text (t : AbiType) : String := String.ofList t.chars

/-- The canonical texts of a list of types, with commas between them. -/
def textAll (ts : List AbiType) : String := String.ofList (Text.joinWith [','] (charsAll ts))

end AbiType
end CallPlan
