import CallPlan.Abi.Address
import CallPlan.Bytes.Keccak
import CallPlan.Text.Numeral
/-!
# Instructions

An instruction is 32 bytes: a selector, seven operand bytes, a result byte and an address.  An operand or result byte is
`0xff` for nothing, `0xfe` for the whole table, and otherwise a slot in its low seven bits, with the high bit set when the
slot holds a blob.
-/
namespace CallPlan

/-- What an operand or result byte names. -/
inductive SlotRef where
  | absent
  | state
  | slot (index : UInt8) (dynamic : Bool)
deriving DecidableEq

namespace SlotRef

def ofByte (b : UInt8) : SlotRef :=
  if b = 0xFF then .absent
  else if b = 0xFE then .state
  else .slot (b &&& 0x7F) (b &&& 0x80 != 0)

def toByte : SlotRef → UInt8
  | .absent       => 0xFF
  | .state        => 0xFE
  | .slot i true  => i ||| 0x80
  | .slot i false => i

def text : SlotRef → String
  | .absent       => "_"
  | .state        => "state"
  | .slot i true  => "s" ++ Text.decimalString i.toNat ++ "*"
  | .slot i false => "s" ++ Text.decimalString i.toNat

end SlotRef

structure Instruction where
  selector : Selector
  operands : Block 7
  result : UInt8
  address : Address
deriving DecidableEq

namespace Instruction

/-- The operand bytes, followed by absent ones. -/
def operandBlock (bs : Bytes) : Block 7 := ⟨(bs ++ List.replicate 7 0xFF).take 7, by simp⟩

def bytes (i : Instruction) : Bytes :=
  i.selector.bytes ++ i.operands.bytes ++ i.result :: i.address.bytes

/-- The instruction that 32 bytes hold. -/
def ofBlock (b : Block 32) : Instruction where
  selector := ⟨b.bytes.take 4, by simp [b.length_bytes]⟩
  operands := ⟨(b.bytes.drop 4).take 7, by simp [b.length_bytes]⟩
  result := b.bytes.getD 11 0
  address := ⟨b.bytes.drop 12, by simp [b.length_bytes]⟩

def text (i : Instruction) : String := toHex i.bytes

/-- The text with the kind of thing in front. -/
def labelled (i : Instruction) : String := "Instruction(" ++ i.text ++ ")"

end Instruction
end CallPlan
