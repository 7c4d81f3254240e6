import CallPlan.Bytes.Basic
/-!
# Words

A word is a block of 32 bytes, most significant byte first.  It stands for a number below `2 ^ 256`, or, read in two's
complement, for an integer in `[-2 ^ 255, 2 ^ 255)`.  Arithmetic on words is done byte by byte, from the last byte to the
first, with a carry.
-/
namespace CallPlan

/-- The last `k` base-256 digits of a number, most significant first. -/
def bigEndian : Nat → Nat → Bytes
  | 0,     _ => []
  | k + 1, n => bigEndian k (n / 256) ++ [UInt8.ofNat (n % 256)]

/-- The number whose base-256 digits are the bytes, most significant first. -/
def ofBigEndian (bs : Bytes) : Nat := bs.foldl (fun n b => 256 * n + b.toNat) 0

@[simp]
theorem length_bigEndian (k : Nat) : ∀ n, (bigEndian k n).length = k := by
  induction k with
  | zero => intro n; rfl
  | succ k ih => intro n; simp [bigEndian, ih]

theorem ofBigEndian_concat (bs : Bytes) (b : UInt8) : ofBigEndian (bs ++ [b]) = 256 * ofBigEndian bs + b.toNat := by
  simp [ofBigEndian]

theorem ofBigEndian_bigEndian (k : Nat) : ∀ n, n < Nat.pow 256 k → ofBigEndian (bigEndian k n) = n := by
  induction k with
  | zero =>
    intro n h
    obtain rfl : n = 0 := Nat.lt_one_iff.1 h
    rfl
  | succ k ih =>
    intro n h
    have hk : n / 256 < Nat.pow 256 k := Nat.div_lt_of_lt_mul (by rwa [Nat.mul_comm])
    have hb : (UInt8.ofNat (n % 256)).toNat = n % 256 := by
      rw [UInt8.toNat_ofNat']
      exact Nat.mod_mod n 256
    rw [bigEndian, ofBigEndian_concat, ih _ hk, hb]
    omega

/-! ## Carries -/

/-- The bytes of `10 * n + d`, as many as those of `n`, and the carry that does not fit them. -/
def timesTenPlus (d : UInt16) : Bytes → Bytes × UInt16
  | []      => ([], d)
  | b :: bs =>
    let low := timesTenPlus d bs
    let v := b.toUInt16 * 10 + low.2
    (v.toUInt8 :: low.1, v >>> 8)

/-- The bytes of `n + 1`, as many as those of `n`, and whether all of them were `0xFF`.  A byte behind which a carry ends
stays as it is. -/
def plusOne : Bytes → Bytes × Bool
  | []      => ([], true)
  | b :: bs =>
    let low := plusOne bs
    if low.2 then ((b + 1) :: low.1, b == 0xFF) else (b :: low.1, false)

theorem length_timesTenPlus (d : UInt16) : ∀ bs : Bytes, (timesTenPlus d bs).1.length = bs.length
  | []      => rfl
  | _ :: bs => congrArg (· + 1) (length_timesTenPlus d bs)

theorem length_plusOne : ∀ bs : Bytes, (plusOne bs).1.length = bs.length
  | []      => rfl
  | b :: bs => by
    rw [plusOne]
    split <;> exact congrArg (· + 1) (length_plusOne bs)

/-! ## Words -/

abbrev Word := Block 32

namespace Word

/-- The number of words. -/
def modulus : Nat := Nat.pow 2 256

/-- The number of words without the first bit. -/
def half : Nat := Nat.pow 2 255

def zero : Word := Block.fill 32 0

/-- The word of a number modulo `2 ^ 256`. -/
def ofNat (n : Nat) : Word := ⟨bigEndian 32 n, length_bigEndian 32 n⟩

/-- The two's-complement word of an integer. -/
def ofInt (i : Int) : Word := ofNat (i % Int.ofNat modulus).toNat

/-- The word whose last 16 bytes are those of a number, and whose other bytes are all the same. -/
def extend (fill : UInt8) (n : Nat) : Word :=
  ⟨List.replicate 16 fill ++ bigEndian 16 n, by rw [List.length_append, List.length_replicate, length_bigEndian]⟩

def toNat (w : Word) : Nat := ofBigEndian w.bytes

theorem toNat_ofNat {n : Nat} (h : n < modulus) : (ofNat n).toNat = n := ofBigEndian_bigEndian 32 n h

/-- Whether the first bit is set, which in two's complement marks a negative integer. -/
def topBit (w : Word) : Bool := 0x80 ≤ (w.bytes.headD 0).toNat

/-- The integer that a word stands for in two's complement. -/
def toInt (w : Word) : Int := if w.topBit then Int.ofNat w.toNat - Int.ofNat modulus else Int.ofNat w.toNat

/-- The word of `10 * n + d` for that of `n`, if it is one. -/
def pushDigit? (w : Word) (d : Nat) : Option Word :=
  if (timesTenPlus (.ofNat d) w.bytes).2 = 0 then
    some ⟨(timesTenPlus (.ofNat d) w.bytes).1, (length_timesTenPlus _ _).trans w.length_bytes⟩
  else none

/-- The two's complement of a word: all bits turned over, and one added. -/
def negate (w : Word) : Word :=
  ⟨(plusOne (w.bytes.map (~~~ ·))).1, (length_plusOne _).trans (List.length_map _ |>.trans w.length_bytes)⟩

end Word
end CallPlan
