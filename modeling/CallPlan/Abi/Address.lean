import CallPlan.Abi.Error
import CallPlan.Bytes.Word
import CallPlan.Text.Blank
/-!
# Addresses

An address is a block of 20 bytes.  Its text is hexadecimal; in a word it stands behind twelve zero bytes.
-/
namespace CallPlan

abbrev Address := Block 20

namespace Address

def text (a : Address) : String := toHex a.bytes

/-- Reads 20 bytes of hexadecimal text, blanks at the ends allowed.  The error quotes the whole text. -/
def ofText (s : String) : Except AbiError Address :=
  match Hex.read (Text.trim s.toList) with
  | .error _ => .error (.invalidAddress s)
  | .ok bs   =>
    match Block.ofBytes? 20 bs with
    | some a => .ok a
    | none   => .error (.invalidAddress s)

/-- The text with the kind of thing in front. -/
def labelled (a : Address) : String := "Address(" ++ a.text ++ ")"

def isZero (a : Address) : Bool := a = Block.fill 20 0

/-- Whether all bytes are the same as the first. -/
def isRepeated (a : Address) : Bool := a = Block.fill 20 (a.bytes.headD 0)

def toWord (a : Address) : Word := ⟨List.replicate 12 0 ++ a.bytes, by simp [a.length_bytes]⟩

end Address
end CallPlan
