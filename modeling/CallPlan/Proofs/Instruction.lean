import CallPlan.Plan.Error
import CallPlan.Plan.Instruction
/-!
# Bytes that name slots

A slot below `maxSlots` has a byte of its own: with or without the high bit it is neither of the two bytes that name no slot,
and reading it gives back slot and bit (`SlotRef.ofByte_slot`).
-/
namespace CallPlan
namespace SlotRef

/-- The slot that a byte names, if it names one. -/
def index? : SlotRef → Option Nat
  | .slot i _ => some i.toNat
  | _         => none

theorem toNat_ofNat_slot {n : Nat} (h : n < maxSlots) : (UInt8.ofNat n).toNat = n := by
  rw [UInt8.toNat_ofNat']
  unfold maxSlots at h
  omega

/-- **The byte of a slot that can be named reads back as that slot.** -/
theorem ofByte_slot {n : Nat} (h : n < maxSlots) (d : Bool) :
    ofByte (slot (.ofNat n) d).toByte = slot (.ofNat n) d := by
  have hall : ∀ m : Fin maxSlots, ∀ d : Bool, ofByte (slot (.ofNat m.val) d).toByte = slot (.ofNat m.val) d := by
    unfold maxSlots; decide
  exact hall ⟨n, h⟩ d

theorem ofByte_cases (b : UInt8) :
    (b = 0xFF ∧ ofByte b = .absent) ∨ (b = 0xFE ∧ ofByte b = .state) ∨
      (b ≠ 0xFF ∧ b ≠ 0xFE ∧ ofByte b = .slot (b &&& 0x7F) (b &&& 0x80 != 0)) := by
  unfold ofByte
  by_cases hff : b = 0xFF
  · simp [hff]
  · by_cases hfe : b = 0xFE
    · simp [hfe]
    · simp [hff, hfe]

theorem index?_ofByte_slot {n : Nat} (h : n < maxSlots) (d : Bool) :
    (ofByte (slot (.ofNat n) d).toByte).index? = some n := by
  rw [ofByte_slot h, index?, toNat_ofNat_slot h]

theorem ofByte_state : ofByte state.toByte = state := by decide

theorem ofByte_absent : ofByte absent.toByte = absent := by decide

theorem toByte_ofByte (b : UInt8) : (ofByte b).toByte = b := by
  have hall : ∀ n < 256, (ofByte (.ofNat n)).toByte = .ofNat n := by decide +kernel
  have hb := hall b.toNat b.toNat_lt
  rwa [UInt8.ofNat_toNat] at hb

theorem ofByte_inj {b b' : UInt8} : ofByte b = ofByte b' ↔ b = b' := by
  refine ⟨fun h => ?_, congrArg ofByte⟩
  rw [← toByte_ofByte b, h, toByte_ofByte]

end SlotRef

namespace Instruction

/-- **At most seven operand bytes stand in front, absent ones fill the rest.** -/
theorem bytes_operandBlock {bs : Bytes} (h : bs.length ≤ maxOperands) :
    (operandBlock bs).bytes = bs ++ List.replicate (maxOperands - bs.length) SlotRef.absent.toByte := by
  unfold maxOperands at h ⊢
  show (bs ++ List.replicate 7 0xFF).take 7 = _
  rw [List.take_append, List.take_of_length_le h, List.take_replicate, Nat.min_eq_left (Nat.sub_le _ _)]
  rfl

theorem bytes_inj {i j : Instruction} : i.bytes = j.bytes ↔ i = j := by
  refine ⟨fun h => ?_, congrArg bytes⟩
  -- every part in front of the address has a length of its own
  obtain ⟨hfront, hback⟩ := List.append_inj h (by simp [Block.length_bytes])
  obtain ⟨hselector, hoperands⟩ := List.append_inj hfront (by simp [Block.length_bytes])
  obtain ⟨hresult, haddress⟩ := List.cons.inj hback
  cases i
  cases j
  rw [Instruction.mk.injEq]
  exact ⟨Block.ext hselector, Block.ext hoperands, hresult, Block.ext haddress⟩

end Instruction
end CallPlan
