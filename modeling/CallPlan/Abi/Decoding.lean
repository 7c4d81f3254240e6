import CallPlan.Abi.AbiType.Basic
import CallPlan.Abi.Token.Basic
/-!
# Reading a layout back

`decode` finds the values of a list of types in bytes laid out as a head and a tail.  It looks at the types and the bytes
only: a value that stands in place is read in the head, any other where its offset word says.  A word read at an integer type
comes back with the tag of the type.
-/
namespace CallPlan
namespace AbiType

mutual
/-- Whether a value of the type stands in the tail.  An array of no elements has nothing to put there. -/
def standsInTail : AbiType → Bool
  | .bytes | .string | .array _ => true
  | .fixedArray t n             => n != 0 && t.standsInTail
  | .tuple ts                   => anyStandsInTail ts
  | _                           => false

def anyStandsInTail : List AbiType → Bool
  | []      => false
  | t :: ts => t.standsInTail || anyStandsInTail ts
end

mutual
/-- The number of bytes that a value standing in place takes. -/
def placeSize : AbiType → Nat
  | .fixedBytes n   => (n + 31) / 32 * 32
  | .fixedArray t n => n * if t.standsInTail then 32 else t.placeSize
  | .tuple ts       => placeSizes ts
  | _               => 32

def placeSizes : List AbiType → Nat
  | []      => 0
  | t :: ts => (if t.standsInTail then 32 else t.placeSize) + placeSizes ts
end

/-- The number of bytes that a value takes in the head. -/
def headSize (t : AbiType) : Nat := if t.standsInTail then 32 else t.placeSize

end AbiType

/-- The word at the front of bytes. -/
def frontWord? (bs : Bytes) : Option Word := Block.ofBytes? 32 (bs.take 32)

/-- The number in the word at the front of bytes. -/
def frontNat? (bs : Bytes) : Option Nat := (frontWord? bs).map Word.toNat

/-- The first `n` bytes, if there are so many. -/
def front? (n : Nat) (bs : Bytes) : Option Bytes := if bs.length < n then none else some (bs.take n)

/-- The bytes behind a word that counts them. -/
def countedFront? (bs : Bytes) : Option Bytes := (frontNat? bs).bind fun n => front? n (bs.drop 32)

/-- The bytes that the head at a position leads to. -/
def seek? (inTail : Bool) (frame : Bytes) (position : Nat) : Option Bytes :=
  if inTail then (frontNat? (frame.drop position)).map frame.drop else some (frame.drop position)

/-- Reads `count` values whose heads stand one behind the other. -/
def readRow (read : Bytes → Option Token) (inTail : Bool) (size : Nat) (frame : Bytes) :
    Nat → Nat → Option (List Token)
  | _,        0         => some []
  | position, count + 1 =>
    match (seek? inTail frame position).bind read with
    | none   => none
    | some t => (readRow read inTail size frame (position + size) count).map (t :: ·)

namespace AbiType

mutual
/-- Reads the value of a type whose own encoding stands at the front of bytes. -/
def decodeFront : AbiType → Bytes → Option Token
  | .address,        bs => (Block.ofBytes? 20 ((bs.take 32).drop 12)).map .address
  | .bool,           bs => (frontNat? bs).map fun n => .bool (n != 0)
  | .uint _,         bs => (frontWord? bs).map .uint
  | .int _,          bs => (frontWord? bs).map .int
  | .fixedBytes n,   bs => (front? n bs).map .fixedBytes
  | .bytes,          bs => (countedFront? bs).map .bytes
  | .string,         bs => ((countedFront? bs).bind bytesText?).map .string
  | .array t,        bs =>
    (frontNat? bs).bind fun n =>
      (readRow t.decodeFront t.standsInTail t.headSize (bs.drop 32) 0 n).map .array
  | .fixedArray t n, bs => (readRow t.decodeFront t.standsInTail t.headSize bs 0 n).map .fixedArray
  | .tuple ts,       bs => (decodeFrom bs 0 ts).map .tuple

/-- Reads the values of types whose heads stand in a frame from a position on. -/
def decodeFrom (frame : Bytes) (position : Nat) : List AbiType → Option (List Token)
  | []      => some []
  | t :: ts =>
    match (seek? t.standsInTail frame position).bind t.decodeFront with
    | none     => none
    | some tok => (decodeFrom frame (position + t.headSize) ts).map (tok :: ·)
end

end AbiType

/-- The values of a list of types, laid out as one sequence. -/
def decode (tys : List AbiType) (bs : Bytes) : Option (List Token) := AbiType.decodeFrom bs 0 tys

end CallPlan
