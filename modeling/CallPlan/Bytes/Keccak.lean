import CallPlan.Bytes.Word
/-!
# Keccak-256

The sponge over 25 lanes of 64 bits with a rate of 136 bytes, a padding that starts with the bit 1 alone (byte `0x01`) and
an output of 32 bytes.  Lanes stand in one array, lane `(x, y)` at `x + 5 * y`.  This is the function that the `sha3` package
documents as `Keccak256`, with the padding of the original proposal; the later standard `Sha3_256` puts two bits in front of it.
-/
namespace CallPlan
namespace Keccak

abbrev Lanes := Array UInt64

def lane (a : Lanes) (i : Nat) : UInt64 := a.getD i 0

/-- A new array of 25 lanes. -/
def tabulate (f : Nat → UInt64) : Lanes := ((List.range 25).map f).toArray

def rotate (w : UInt64) (n : Nat) : UInt64 :=
  if n = 0 then w else (w <<< UInt64.ofNat n) ||| (w >>> UInt64.ofNat (64 - n))

/-- How far each lane is rotated. -/
def offsets : List Nat :=
  [0, 1, 62, 28, 27, 36, 44, 6, 55, 20, 3, 10, 43, 25, 39, 41, 45, 15, 21, 8, 18, 2, 61, 56, 14]

def roundConstants : List UInt64 :=
  [0x0000000000000001, 0x0000000000008082, 0x800000000000808A, 0x8000000080008000,
   0x000000000000808B, 0x0000000080000001, 0x8000000080008081, 0x8000000000008009,
   0x000000000000008A, 0x0000000000000088, 0x0000000080008009, 0x000000008000000A,
   0x000000008000808B, 0x800000000000008B, 0x8000000000008089, 0x8000000000008003,
   0x8000000000008002, 0x8000000000000080, 0x000000000000800A, 0x800000008000000A,
   0x8000000080008081, 0x8000000000008080, 0x0000000080000001, 0x8000000080008008]

/-- Each lane takes the parities of the two neighbouring columns. -/
def theta (a : Lanes) : Lanes :=
  let c := tabulate fun x =>
    lane a x ^^^ lane a (x + 5) ^^^ lane a (x + 10) ^^^ lane a (x + 15) ^^^ lane a (x + 20)
  tabulate fun i => lane a i ^^^ lane c ((i + 4) % 5) ^^^ rotate (lane c ((i + 1) % 5)) 1

/-- Each lane is rotated, and lane `(x, y)` moves to `(y, 2 x + 3 y)`. -/
def rhoPi (a : Lanes) : Lanes :=
  tabulate fun i =>
    let x := i % 5
    let source := (x + 3 * (i / 5)) % 5 + 5 * x
    rotate (lane a source) (offsets.getD source 0)

/-- Each lane takes its two right neighbours in the row. -/
def chi (a : Lanes) : Lanes :=
  tabulate fun i =>
    let row := 5 * (i / 5)
    lane a i ^^^ ((~~~ lane a (row + (i + 1) % 5)) &&& lane a (row + (i + 2) % 5))

def iota (k : UInt64) (a : Lanes) : Lanes := a.setIfInBounds 0 (lane a 0 ^^^ k)

def permute (a : Lanes) : Lanes := roundConstants.foldl (fun a k => iota k (chi (rhoPi (theta a)))) a

def rate : Nat := 136

/-- The message followed by the padding that fills its last block. -/
def padded (m : Bytes) : Bytes :=
  match rate - 1 - m.length % rate with
  | 0     => m ++ [0x81]
  | k + 1 => m ++ 0x01 :: List.replicate k 0x00 ++ [0x80]

/-- Eight bytes as a lane, least significant first. -/
def ofLittleEndian (bs : Bytes) : UInt64 := bs.foldr (fun b n => (n <<< 8) ||| b.toUInt64) 0

def absorbBlock (a : Lanes) (block : Bytes) : Lanes :=
  permute (tabulate fun i => lane a i ^^^ ofLittleEndian ((block.drop (8 * i)).take 8))

def absorb (a : Lanes) (m : Bytes) : Lanes :=
  if _h : m = [] then a else absorb (absorbBlock a (m.take rate)) (m.drop rate)
termination_by m.length
decreasing_by
  have := List.length_pos_iff.2 _h
  simp only [List.length_drop, rate]
  omega

/-- The eight bytes of a lane, least significant first. -/
def littleEndian (w : UInt64) : Bytes := (bigEndian 8 w.toNat).reverse

/-- The Keccak-256 hash of a message. -/
def digest (m : Bytes) : Word :=
  let a := absorb (tabulate fun _ => 0) (padded m)
  ⟨littleEndian (lane a 0) ++ littleEndian (lane a 1) ++ littleEndian (lane a 2) ++ littleEndian (lane a 3),
    by simp [littleEndian]⟩

end Keccak

abbrev Selector := Block 4

/-- The first four bytes of the hash of a text. -/
def selectorOf (signature : String) : Selector :=
  let h := Keccak.digest (textBytes signature)
  ⟨h.bytes.take 4, by simp [h.length_bytes]⟩

end CallPlan
