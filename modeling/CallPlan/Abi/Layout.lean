import CallPlan.Abi.Token.Basic
/-!
# Head and tail

A sequence of values is laid out as a head and a tail.  A value that needs no offset stands in the head itself; any other
stands in the tail, and the head holds its position, counted from the start of the sequence.  `Token.encoding` is a value's
own encoding, `layout` puts a sequence of them together.
-/
namespace CallPlan

/-- A member of a sequence: its own encoding, and whether it is reached through an offset word. -/
structure Part where
  usesOffset : Bool
  body : Bytes
deriving DecidableEq

namespace Part

/-- The number of bytes that a member takes in the head. -/
def headLength (p : Part) : Nat := if p.usesOffset then 32 else p.body.length

/-- The bytes that a member adds to the tail. -/
def tail (p : Part) : Bytes := if p.usesOffset then p.body else []

/-- The bytes that a member adds to the head when its tail would start at a position. -/
def head (position : Nat) (p : Part) : Bytes := if p.usesOffset then (Word.ofNat position).bytes else p.body

end Part

def headLength : List Part → Nat
  | []      => 0
  | p :: ps => p.headLength + headLength ps

/-- The heads of the members, the tail of the first starting at a position. -/
def heads (position : Nat) : List Part → Bytes
  | []      => []
  | p :: ps => p.head position ++ heads (position + p.tail.length) ps

def tails (ps : List Part) : Bytes := ps.flatMap Part.tail

/-- A sequence laid out: its head, and its tail right behind. -/
def layout (ps : List Part) : Bytes := heads (headLength ps) ps ++ tails ps

/-- The bytes filled up with zeros to whole words. -/
def padToWords (bs : Bytes) : Bytes := bs ++ List.replicate ((32 - bs.length % 32) % 32) 0

/-- The bytes behind a word that counts them, filled up to whole words. -/
def counted (bs : Bytes) : Bytes := (Word.ofNat bs.length).bytes ++ padToWords bs

namespace Token

mutual
/-- A value's own encoding. -/
def encoding : Token → Bytes
  | .address a                       => a.toWord.bytes
  | .bool b                          => (Word.ofNat b.toNat).bytes
  | .uint w | .int w                 => w.bytes
  | .fixedBytes bs                   => padToWords bs
  | .bytes bs                        => counted bs
  | .string s                        => counted (textBytes s)
  | .array items                     => (Word.ofNat items.length).bytes ++ layout (parts items)
  | .fixedArray items | .tuple items => layout (parts items)

def parts : List Token → List Part
  | []      => []
  | t :: ts => ⟨t.usesOffset, t.encoding⟩ :: parts ts
end

end Token

/-- The encoding of a list of values as one sequence. -/
def encode (ts : List Token) : Bytes := layout (Token.parts ts)

end CallPlan
