import CallPlan.Plan.Program
import CallPlan.Proofs.Instruction
/-!
# What the check of a program accepts

A program can be executed when its table has no more slots than a byte can name, and in every instruction the operands stand
in front of the absent ones and every byte names something that is there (`Instruction.Executable`).  The check goes through
the operands with a flag that says whether an absent one came before.  One step of it looks at one operand, whose fault depends
on that operand and on what stands in front of it alone (`checkOperands_cons`); so the check stops at the first fault, and
passes exactly what can be executed (`validate_exact`).
-/
namespace CallPlan

/-! ## Bytes -/

namespace SlotRef

/-- **The byte names nothing, the whole table, or a slot of a table of the size.** -/
def Names (size : Nat) (b : UInt8) : Prop := b = 0xFF ∨ b = 0xFE ∨ (b &&& 0x7F).toNat < size

instance (size : Nat) (b : UInt8) : Decidable (Names size b) := inferInstanceAs (Decidable (_ ∨ _ ∨ _))

theorem names_iff {size : Nat} {b : UInt8} : Names size b ↔ ∀ n, (ofByte b).index? = some n → n < size := by
  unfold Names
  rcases ofByte_cases b with ⟨rfl, hb⟩ | ⟨rfl, hb⟩ | ⟨hff, hfe, hb⟩
  · simp [hb, index?]
  · simp [hb, index?]
  · simp [hb, hff, hfe, index?]

end SlotRef

open SlotRef (Names)

/-! ## Faults -/

namespace Instruction

/-- **An instruction that can be executed on a table of the size**: some operands and only absent ones behind them, and no byte
that names a slot outside the table. -/
structure Executable (size : Nat) (ins : Instruction) : Prop where
  shape : ∃ bs d, ins.operands.bytes = bs ++ List.replicate d 0xFF ∧ 0xFF ∉ bs
  operands : ∀ b ∈ ins.operands.bytes, Names size b
  result : Names size ins.result

/-- What is wrong with the operand at a position: it stands behind an absent one, or it names a slot outside the table. -/
def operandFault? (size pc : Nat) (bs : Bytes) (k : Nat) : Option ProgramFault :=
  bs[k]?.bind fun b =>
    if b = 0xFF then none
    else if 0xFF ∈ bs.take k then some (.operandAfterEnd pc k)
    else if Names size b then none
    else some (.operandOutside pc (b &&& 0x7F).toNat size)

def resultFault? (size pc : Nat) (b : UInt8) : Option ProgramFault :=
  if Names size b then none else some (.resultOutside pc (b &&& 0x7F).toNat size)

/-- **The fault of the first operand that has one, or else of the result.** -/
def FirstFault (size pc : Nat) (ins : Instruction) (f : ProgramFault) : Prop :=
  (∃ k, operandFault? size pc ins.operands.bytes k = some f ∧
    ∀ j < k, operandFault? size pc ins.operands.bytes j = none) ∨
  (∀ k, operandFault? size pc ins.operands.bytes k = none) ∧ resultFault? size pc ins.result = some f

section
variable {size pc : Nat} {ins : Instruction}

theorem exists_eq_append_replicate_iff {α : Type} {a : α} : ∀ {l : List α},
    (∃ bs d, l = bs ++ List.replicate d a ∧ a ∉ bs) ↔ ∀ k b, l[k]? = some b → a ∈ l.take k → b = a
  | [] => by simp
  | x :: l => by
    constructor
    · rintro ⟨bs, d, hl, ha⟩ k b hb hmem
      rw [hl] at hb hmem
      by_cases hk : k < bs.length
      · rw [List.take_append_of_le_length (Nat.le_of_lt hk)] at hmem
        exact absurd (List.mem_of_mem_take hmem) ha
      · rw [List.getElem?_append_right (Nat.le_of_not_lt hk)] at hb
        exact List.eq_of_mem_replicate (List.mem_of_getElem? hb)
    · intro h
      by_cases hx : x = a
      · refine ⟨[], (x :: l).length, ?_, List.not_mem_nil⟩
        refine List.eq_replicate_of_mem fun b hb => ?_
        rcases List.mem_cons.1 hb with rfl | hb
        · exact hx
        · obtain ⟨k, hk⟩ := List.mem_iff_getElem?.1 hb
          exact h (k + 1) b hk (by simp [hx])
      · have hrest : ∀ k b, l[k]? = some b → a ∈ l.take k → b = a := fun k b hb hmem =>
          h (k + 1) b hb (by simp [hmem])
        obtain ⟨bs, d, hl, ha⟩ := exists_eq_append_replicate_iff.2 hrest
        exact ⟨x :: bs, d, by rw [hl, List.cons_append], by simp [Ne.symm hx, ha]⟩

theorem operandFault?_eq_none_iff {bs : Bytes} {k : Nat} : operandFault? size pc bs k = none ↔
    ∀ b, bs[k]? = some b → Names size b ∧ (0xFF ∈ bs.take k → b = 0xFF) := by
  unfold operandFault?
  cases hb : bs[k]? with
  | none => simp
  | some b =>
    by_cases hff : b = 0xFF
    · simp [hff, Names]
    · by_cases hmem : 0xFF ∈ bs.take k
      · simp [hff, hmem]
      · simp [hff, hmem]

theorem resultFault?_eq_none_iff {b : UInt8} : resultFault? size pc b = none ↔ Names size b := by
  simp [resultFault?]

/-- **An instruction can be executed exactly when it has no fault.** -/
theorem executable_iff : ins.Executable size ↔
    (∀ k, operandFault? size pc ins.operands.bytes k = none) ∧ resultFault? size pc ins.result = none := by
  simp only [operandFault?_eq_none_iff, resultFault?_eq_none_iff]
  constructor
  · intro h
    refine ⟨fun k b hb => ⟨h.operands b (List.mem_of_getElem? hb), ?_⟩, h.result⟩
    exact exists_eq_append_replicate_iff.1 h.shape k b hb
  · rintro ⟨hops, hres⟩
    refine ⟨exists_eq_append_replicate_iff.2 fun k b hb => (hops k b hb).2, fun b hb => ?_, hres⟩
    obtain ⟨k, hk⟩ := List.mem_iff_getElem?.1 hb
    exact (hops k b hk).1

theorem FirstFault.not_executable {f : ProgramFault} (h : ins.FirstFault size pc f) : ¬ ins.Executable size := by
  rw [@executable_iff size pc]
  rintro ⟨hops, hres⟩
  rcases h with ⟨k, hk, -⟩ | ⟨-, hf⟩
  · rw [hops k] at hk
    cases hk
  · rw [hres] at hf
    cases hf

theorem FirstFault.unique {f f' : ProgramFault} (h : ins.FirstFault size pc f) (h' : ins.FirstFault size pc f') :
    f = f' := by
  rcases h with ⟨k, hk, hbefore⟩ | ⟨hnone, hf⟩ <;> rcases h' with ⟨k', hk', hbefore'⟩ | ⟨hnone', hf'⟩
  · rcases Nat.lt_trichotomy k k' with hlt | rfl | hlt
    · simp [hbefore' k hlt] at hk
    · exact Option.some.inj (hk.symm.trans hk')
    · simp [hbefore k' hlt] at hk'
  · simp [hnone' k] at hk
  · simp [hnone k'] at hk'
  · exact Option.some.inj (hf.symm.trans hf')

end
end Instruction

/-! ## The check -/

namespace Program

open Instruction (operandFault? resultFault? FirstFault)

/-- **The first instruction that cannot be executed stands at `pc`, and its first fault is `f`.** -/
def FaultAt (p : Program) (pc : Nat) (f : ProgramFault) : Prop :=
  ∃ ins, p.instructions[pc]? = some ins ∧ ins.FirstFault p.state.length pc f ∧
    ∀ (k : Nat) (ins' : Instruction), k < pc → p.instructions[k]? = some ins' → ins'.Executable p.state.length

theorem FaultAt.unique {p : Program} {pc pc' : Nat} {f f' : ProgramFault} (h : p.FaultAt pc f) (h' : p.FaultAt pc' f') :
    f = f' := by
  obtain ⟨ins, hpc, hf, hbefore⟩ := h
  obtain ⟨ins', hpc', hf', hbefore'⟩ := h'
  rcases Nat.lt_trichotomy pc pc' with hlt | rfl | hlt
  · exact absurd (hbefore' pc ins hlt hpc) hf.not_executable
  · obtain rfl : ins = ins' := Option.some.inj (hpc.symm.trans hpc')
    exact hf.unique hf'
  · exact absurd (hbefore pc' ins' hlt hpc') hf'.not_executable

variable {size pc : Nat}

/-- **One operand**: the check stops at its fault, or goes on with what is then in front. -/
theorem checkOperands_cons (pre : Bytes) (b : UInt8) (bs : Bytes) :
    checkOperands size pc pre.length (decide (0xFF ∈ pre)) (b :: bs) =
      (operandFault? size pc (pre ++ b :: bs) pre.length).elim
        (checkOperands size pc (pre ++ [b]).length (decide (0xFF ∈ pre ++ [b])) bs) .error := by
  have hfault : operandFault? size pc (pre ++ b :: bs) pre.length =
      if b = 0xFF then none
      else if 0xFF ∈ pre then some (.operandAfterEnd pc pre.length)
      else if Names size b then none
      else some (.operandOutside pc (b &&& 0x7F).toNat size) := by
    simp [operandFault?]
  rw [hfault, checkOperands, List.length_append, List.length_singleton]
  rcases SlotRef.ofByte_cases b with ⟨rfl, hb⟩ | ⟨rfl, hb⟩ | ⟨hff, hfe, hb⟩
  · simp [hb]
  · by_cases hpre : 0xFF ∈ pre
    · simp [hb, hpre]
    · simp [hb, hpre, Names]
  · by_cases hpre : 0xFF ∈ pre
    · simp [hb, hff, hpre]
    · by_cases hlt : (b &&& 0x7F).toNat < size
      · simp [hb, hff, hpre, Ne.symm hff, Names, hlt, Nat.not_le_of_lt hlt, -UInt8.toNat_and]
      · simp [hb, hff, hfe, hpre, Names, hlt, Nat.le_of_not_lt hlt, -UInt8.toNat_and]

/-- **All operands**: nothing is wrong with those in front, and the first fault behind them is the error. -/
theorem checkOperands_cases : ∀ (bs pre : Bytes), (∀ j < pre.length, operandFault? size pc (pre ++ bs) j = none) →
    (checkOperands size pc pre.length (decide (0xFF ∈ pre)) bs = .ok () ∧
      ∀ k, operandFault? size pc (pre ++ bs) k = none) ∨
    ∃ f k, checkOperands size pc pre.length (decide (0xFF ∈ pre)) bs = .error f ∧
      operandFault? size pc (pre ++ bs) k = some f ∧ ∀ j < k, operandFault? size pc (pre ++ bs) j = none
  | [], pre, hpre => by
    refine .inl ⟨rfl, fun k => ?_⟩
    by_cases hk : k < pre.length
    · exact hpre k hk
    · simp [operandFault?, List.getElem?_eq_none (Nat.le_of_not_lt hk)]
  | b :: bs, pre, hpre => by
    rw [checkOperands_cons]
    cases hfault : operandFault? size pc (pre ++ b :: bs) pre.length with
    | some f => exact .inr ⟨f, pre.length, rfl, hfault, hpre⟩
    | none =>
      have hnext : ∀ j < (pre ++ [b]).length, operandFault? size pc (pre ++ [b] ++ bs) j = none := by
        intro j hj
        rw [List.append_assoc, List.singleton_append]
        rcases Nat.lt_or_eq_of_le (Nat.le_of_lt_succ (by simpa using hj)) with hlt | rfl
        · exact hpre j hlt
        · exact hfault
      have ih := checkOperands_cases bs (pre ++ [b]) hnext
      rwa [List.append_assoc, List.singleton_append] at ih

theorem checkResult_eq (b : UInt8) :
    checkResult size pc b = (resultFault? size pc b).elim (.ok ()) .error := by
  unfold checkResult resultFault?
  rcases SlotRef.ofByte_cases b with ⟨rfl, hb⟩ | ⟨rfl, hb⟩ | ⟨hff, hfe, hb⟩
  · simp [hb, Names]
  · simp [hb, Names]
  · by_cases hlt : (b &&& 0x7F).toNat < size
    · simp [hb, Names, hlt, Nat.not_le_of_lt hlt, -UInt8.toNat_and]
    · simp [hb, hff, hfe, Names, hlt, Nat.le_of_not_lt hlt, -UInt8.toNat_and]

/-- **One instruction**: the check stops at its first fault, or the instruction can be executed and the check goes on. -/
theorem checkInstructions_cons (ins : Instruction) (is : List Instruction) :
    (ins.Executable size ∧ checkInstructions size pc (ins :: is) = checkInstructions size (pc + 1) is) ∨
      ∃ f, ins.FirstFault size pc f ∧ checkInstructions size pc (ins :: is) = .error f := by
  have hops := @checkOperands_cases size pc ins.operands.bytes [] (by simp)
  simp only [List.length_nil, List.not_mem_nil, decide_false, List.nil_append] at hops
  rcases hops with ⟨hok, hnone⟩ | ⟨f, k, herror, hf, hbefore⟩
  · rw [checkInstructions, hok, checkResult_eq]
    cases hres : resultFault? size pc ins.result with
    | none => exact .inl ⟨Instruction.executable_iff.2 ⟨hnone, hres⟩, rfl⟩
    | some f => exact .inr ⟨f, .inr ⟨hnone, hres⟩, rfl⟩
  · refine .inr ⟨f, .inl ⟨k, hf, hbefore⟩, ?_⟩
    rw [checkInstructions, herror]

/-- **All instructions from `pc` on.** -/
theorem checkInstructions_cases : ∀ (is : List Instruction) (pc : Nat),
    (checkInstructions size pc is = .ok () ∧ ∀ ins ∈ is, ins.Executable size) ∨
      ∃ (f : ProgramFault) (k : Nat) (ins : Instruction), checkInstructions size pc is = .error f ∧
        is[k]? = some ins ∧ ins.FirstFault size (pc + k) f ∧
        ∀ (j : Nat) (ins' : Instruction), j < k → is[j]? = some ins' → ins'.Executable size
  | [], _ => .inl ⟨rfl, by simp⟩
  | ins :: is, pc => by
    rcases @checkInstructions_cons size pc ins is with ⟨hexec, hgo⟩ | ⟨f, hf, herror⟩
    · rw [hgo]
      rcases checkInstructions_cases is (pc + 1) with ⟨hok, hall⟩ | ⟨f, k, ins', herror, hk, hf, hbefore⟩
      · exact .inl ⟨hok, by simpa using ⟨hexec, hall⟩⟩
      · refine .inr ⟨f, k + 1, ins', herror, hk, by rwa [show pc + (k + 1) = pc + 1 + k by omega], fun j d hj hd => ?_⟩
        cases j with
        | zero => cases hd; exact hexec
        | succ j => exact hbefore j d (Nat.lt_of_succ_lt_succ hj) hd
    · exact .inr ⟨f, 0, ins, herror, rfl, hf, fun j _ hj => absurd hj (Nat.not_lt_zero j)⟩

/-- **What the check does**: it accepts, refuses the table, or names the first fault of the first instruction that has one. -/
theorem validate_cases (p : Program) :
    (p.validate = .ok () ∧ p.state.length ≤ maxSlots ∧ ∀ ins ∈ p.instructions, ins.Executable p.state.length) ∨
    (p.validate = .error (.corrupted (.tooManySlots p.state.length)) ∧ maxSlots < p.state.length) ∨
    ∃ f pc, p.validate = .error (.corrupted f) ∧ p.state.length ≤ maxSlots ∧ p.FaultAt pc f := by
  unfold validate
  by_cases hlen : maxSlots < p.state.length
  · exact .inr (.inl ⟨if_pos hlen, hlen⟩)
  · rw [if_neg hlen]
    rcases @checkInstructions_cases p.state.length p.instructions 0 with
      ⟨hok, hall⟩ | ⟨f, pc, ins, herror, hpc, hf, hbefore⟩
    · exact .inl ⟨by rw [hok], Nat.le_of_not_lt hlen, hall⟩
    · rw [Nat.zero_add] at hf
      exact .inr (.inr ⟨f, pc, by rw [herror], Nat.le_of_not_lt hlen, ins, hpc, hf, hbefore⟩)

theorem validate_eq_ok_iff (p : Program) :
    p.validate = .ok () ↔ p.state.length ≤ maxSlots ∧ ∀ ins ∈ p.instructions, ins.Executable p.state.length := by
  rcases p.validate_cases with ⟨hok, hexec⟩ | ⟨herror, hlen⟩ | ⟨f, pc, herror, -, ins, hpc, hf, -⟩
  · exact iff_of_true hok hexec
  · rw [herror]
    exact iff_of_false (by simp) fun h => absurd hlen (Nat.not_lt_of_le h.1)
  · rw [herror]
    exact iff_of_false (by simp) fun h => hf.not_executable (h.2 ins (List.mem_of_getElem? hpc))

/-- **The check accepts exactly the programs that can be executed, and names what is wrong with any other.**  A table with more
slots than a byte can name is refused for its length.  Otherwise the error is the first fault of the first instruction that
cannot be executed: the position of an operand behind an absent one, or the slot outside the table. -/
theorem validate_exact (p : Program) :
    (p.validate = .ok () ↔ p.state.length ≤ 126 ∧ ∀ ins ∈ p.instructions, ins.Executable p.state.length) ∧
    ∀ e, p.validate = .error e ↔
      (126 < p.state.length ∧ e = .corrupted (.tooManySlots p.state.length)) ∨
      (p.state.length ≤ 126 ∧ ∃ pc f, p.FaultAt pc f ∧ e = .corrupted f) := by
  refine ⟨p.validate_eq_ok_iff, fun e => ?_⟩
  rcases p.validate_cases with ⟨hok, hlen, hexec⟩ | ⟨herror, hlen⟩ | ⟨f, pc, herror, hlen, hf⟩
  · rw [hok]
    refine iff_of_false (by simp) ?_
    rintro (⟨hlong, -⟩ | ⟨-, pc, f, ⟨ins, hpc, hf, -⟩, -⟩)
    · exact absurd hlong (Nat.not_lt_of_le hlen)
    · exact hf.not_executable (hexec ins (List.mem_of_getElem? hpc))
  · rw [herror]
    constructor
    · rintro ⟨⟩
      exact .inl ⟨hlen, rfl⟩
    · rintro (⟨-, rfl⟩ | ⟨hshort, -⟩)
      · rfl
      · exact absurd hlen (Nat.not_lt_of_le hshort)
  · rw [herror]
    constructor
    · rintro ⟨⟩
      exact .inr ⟨hlen, pc, f, hf, rfl⟩
    · rintro (⟨hlong, -⟩ | ⟨-, pc', f', hf', rfl⟩)
      · exact absurd hlong (Nat.not_lt_of_le hlen)
      · rw [hf.unique hf']

/-- A table with more slots than a byte can name, and an instruction with an operand behind an absent one. -/
def gapInLongTable : Program where
  instructions := [⟨Block.fill 4 0, ⟨[0xFF, 0x00, 0xFF, 0xFF, 0xFF, 0xFF, 0xFF], rfl⟩, 0xFF, Block.fill 20 0⟩]
  state := List.replicate 127 []

/-- A table of one slot and an instruction with these operands. -/
def strayOperand (operands : Block 7) : Program where
  instructions := [⟨Block.fill 4 0, operands, 0xFF, Block.fill 20 0⟩]
  state := [[]]

/-- **An error need not name the operand.**  The length of the table hides what is wrong with an instruction, and an operand
outside the table is named by its slot, whatever its position. -/
theorem validate_operand_unnamed :
    (gapInLongTable.FaultAt 0 (.operandAfterEnd 0 1) ∧
      gapInLongTable.validate ≠ .error (.corrupted (.operandAfterEnd 0 1)) ∧
      gapInLongTable.validate = .error (.corrupted (.tooManySlots 127))) ∧
    (strayOperand ⟨[0x05, 0x00, 0xFF, 0xFF, 0xFF, 0xFF, 0xFF], rfl⟩).validate = .error (.corrupted (.operandOutside 0 5 1)) ∧
    (strayOperand ⟨[0x00, 0x05, 0xFF, 0xFF, 0xFF, 0xFF, 0xFF], rfl⟩).validate = .error (.corrupted (.operandOutside 0 5 1)) := by
  have hcheck : gapInLongTable.validate = .error (.corrupted (.tooManySlots 127)) := by
    simp [validate, gapInLongTable, maxSlots]
  refine ⟨⟨⟨_, rfl, .inl ⟨1, rfl, fun j hj => ?_⟩, fun k _ hk => absurd hk (Nat.not_lt_zero k)⟩, ?_, hcheck⟩, ?_, ?_⟩
  · obtain rfl : j = 0 := Nat.lt_one_iff.1 hj
    rfl
  · simp [hcheck]
  · rfl
  · rfl

end Program
end CallPlan
