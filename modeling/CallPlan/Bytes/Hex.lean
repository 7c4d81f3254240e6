import CallPlan.Bytes.Basic
import CallPlan.Text.Quoted
/-!
# Hexadecimal text

Bytes are written as `0x` and two lower-case digits a byte.  Reading drops one `0x` or `0X` if there is one and takes digits
of either case.  An odd number of bytes of digit text is noticed before any bad character.  What counts as a digit, the order
of the two checks and their messages are those that the `hex` package documents for its decoder; the marker is ours.
-/
namespace CallPlan

/-- Why a text is not hexadecimal. -/
inductive HexFault where
  /-- The digits take an odd number of bytes. -/
  | oddLength
  /-- The byte at a position behind the marker is no digit. -/
  | badCharacter (byte : UInt8) (position : Nat)
deriving DecidableEq

def HexFault.message : HexFault → String
  | .oddLength           => "Odd number of digits"
  | .badCharacter b i    =>
    "Invalid character " ++ Text.quotedByte b ++ " at position " ++ String.ofList (Nat.toDigits 10 i)

namespace Hex

/-- The two digits of a byte, high half first. -/
def byteDigits (b : UInt8) : List Char := [Text.hexLetter (b.toNat / 16), Text.hexLetter (b.toNat % 16)]

/-- The digits of a byte string, behind no marker. -/
def digits (bs : Bytes) : List Char := bs.flatMap byteDigits

def digitValue? (c : Char) : Option Nat :=
  if '0' ≤ c ∧ c ≤ '9' then some (c.toNat - 48)
  else if 'a' ≤ c ∧ c ≤ 'f' then some (c.toNat - 87)
  else if 'A' ≤ c ∧ c ≤ 'F' then some (c.toNat - 55)
  else none

/-- The first byte of a character in UTF-8. -/
def leadByte (c : Char) : UInt8 :=
  let n := c.toNat
  if n < 0x80 then .ofNat n
  else if n < 0x800 then .ofNat (0xC0 + n / 0x40)
  else if n < 0x10000 then .ofNat (0xE0 + n / 0x1000)
  else .ofNat (0xF0 + n / 0x40000)

/-- The bytes that digits write, the first of them standing at position `i`. -/
def decodeFrom (i : Nat) : List Char → Except HexFault Bytes
  | []          => .ok []
  | [a]         =>
    match digitValue? a with
    | none   => .error (.badCharacter (leadByte a) i)
    | some _ => .error .oddLength
  | a :: b :: s =>
    match digitValue? a, digitValue? b with
    | none, _        => .error (.badCharacter (leadByte a) i)
    | some _, none   => .error (.badCharacter (leadByte b) (i + 1))
    | some x, some y => (decodeFrom (i + 2) s).map (UInt8.ofNat (16 * x + y) :: ·)

/-- The number of bytes of a text in UTF-8. -/
def width : List Char → Nat
  | []     => 0
  | c :: s => c.utf8Size + width s

def decode (s : List Char) : Except HexFault Bytes := if width s % 2 = 1 then .error .oddLength else decodeFrom 0 s

/-- The text without one `0x` or `0X` in front. -/
def dropMarker : List Char → List Char
  | '0' :: 'x' :: s => s
  | '0' :: 'X' :: s => s
  | s               => s

def read (s : List Char) : Except HexFault Bytes := decode (dropMarker s)

end Hex

/-- Bytes as text: `0x` and two lower-case digits a byte. -/
def toHex (bs : Bytes) : String := "0x" ++ String.ofList (Hex.digits bs)

end CallPlan
