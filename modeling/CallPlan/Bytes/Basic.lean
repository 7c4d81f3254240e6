/-!
# Byte strings and blocks

A byte string is a list of bytes.  A block is a byte string of known length: words, addresses and selectors are blocks of
32, 20 and 4 bytes.
-/
namespace CallPlan

abbrev Bytes := List UInt8

/-- The bytes of a text in UTF-8. -/
def textBytes (s : String) : Bytes := s.toUTF8.data.toList

/-- The text whose UTF-8 bytes these are. -/
def bytesText? (bs : Bytes) : Option String := String.fromUTF8? ⟨bs.toArray⟩

theorem bytesText?_textBytes (s : String) : bytesText? (textBytes s) = some s := by
  unfold bytesText? textBytes String.fromUTF8?
  exact dif_pos s.isValidUTF8

/-- A byte string of length `n`. -/
@[ext]
structure Block (n : Nat) where
  bytes : Bytes
  length_bytes : bytes.length = n
deriving DecidableEq

namespace Block

def ofBytes? (n : Nat) (bs : Bytes) : Option (Block n) := if h : bs.length = n then some ⟨bs, h⟩ else none

/-- The block that repeats one byte. -/
def fill (n : Nat) (b : UInt8) : Block n := ⟨List.replicate n b, List.length_replicate⟩

theorem ofBytes?_bytes {n : Nat} (b : Block n) : ofBytes? n b.bytes = some b := by
  simp [ofBytes?, b.length_bytes]

theorem bytes_of_ofBytes? {n : Nat} {bs : Bytes} {b : Block n} (h : ofBytes? n bs = some b) : b.bytes = bs := by
  unfold ofBytes? at h
  split at h <;> cases h
  rfl

end Block
end CallPlan
