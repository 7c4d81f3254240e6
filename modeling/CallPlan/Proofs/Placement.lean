import CallPlan.Proofs.Assembly
/-!
# Where a program keeps values

`Program.Keeps` reads off a program in which slot each value is: a literal where its readers' operands point, a result where
its command's result byte points.  In a plan that is the slot that was given out (`Planned.keeps_iff`).
-/
namespace CallPlan

open Slots (Balanced Step Held Took ofLiterals)

/-- **The slot in which a program keeps a value.** -/
def Program.Keeps (prog : Program) (cs : List Command) : Source → Nat → Prop
  | .literal bs, n => ∃ i k v ins b, argAt? cs i k = some v ∧ v.source? = some (.literal bs) ∧
      prog.instructions[i]? = some ins ∧ ins.operands.bytes[k]? = some b ∧ (SlotRef.ofByte b).index? = some n
  | .result j, n   => ∃ ins, prog.instructions[j]? = some ins ∧ (SlotRef.ofByte ins.result).index? = some n

section
variable {cs : List Command} {l : Lifetimes} {st : Nat → Slots} {prog : Program} {i k : Nat} {c : Command}
  {ins : Instruction}

/-! ## Where the bytes of an instruction point -/

theorem Planned.step_at (h : Planned cs l st prog) (hins : prog.instructions[i]? = some ins) (hc : cs[i]? = some c) :
    c.call.args.length ≤ maxOperands ∧ Step l i c (st i) ins (st (i + 1)) := by
  obtain ⟨hlen, ins', hins', hs⟩ := h.step i c hc
  rw [hins] at hins'
  cases hins'
  exact ⟨hlen, hs⟩

theorem Planned.instruction (h : Planned cs l st prog) (hc : cs[i]? = some c) :
    ∃ ins, prog.instructions[i]? = some ins ∧ ins.address = c.call.address ∧ ins.selector = c.call.selector := by
  obtain ⟨-, ins, hins, hs⟩ := h.step i c hc
  exact ⟨ins, hins, by rw [hs.instruction_eq]; rfl, by rw [hs.instruction_eq]; rfl⟩

theorem Planned.length_table_le (h : Planned cs l st prog) (hi : i ≤ cs.length) :
    (st i).table.length ≤ prog.state.length := by
  obtain ⟨d, hd⟩ := h.table_prefix hi (Nat.le_refl _)
  rw [← h.table_eq, hd, List.length_append]
  exact Nat.le_add_right _ _

theorem Planned.length_state_le (h : Planned cs l st prog) : prog.state.length ≤ maxSlots := by
  rw [← h.table_eq]
  exact (h.balanced _ (Nat.le_refl _)).length_le

/-- A value that a command reads is held before it. -/
theorem Planned.held_of_reads (h : Planned cs l st prog) {x : Source} (hr : Reads cs x i) :
    ∃ k n, Held l i i (st i) x k n := by
  have hi := Nat.le_of_lt hr.lt_length
  obtain ⟨k, hk, hlast⟩ := hr.exists_last
  have hlast' := (h.exact.lastRead_iff x k).2 hlast
  have hknown : x.KnownAt i := by
    cases x with
    | literal bs => trivial
    | result j => exact h.ordered j i hr
  obtain ⟨n, hn⟩ := (h.balanced i hi).placed x k hknown hlast'
  exact ⟨k, n, hknown, hlast', hk, hn⟩

/-- **The operand bytes are those of the arguments, and absent ones fill the rest.** -/
theorem Planned.operands_bytes (h : Planned cs l st prog) (hins : prog.instructions[i]? = some ins) (hc : cs[i]? = some c) :
    ins.operands.bytes = c.call.args.map (st i).byteOf ++
      List.replicate (maxOperands - c.call.args.length) SlotRef.absent.toByte := by
  obtain ⟨hlen, hs⟩ := h.step_at hins hc
  rw [hs.instruction_eq, Slots.instructionOf, Instruction.bytes_operandBlock (by simpa using hlen), List.length_map]

theorem Planned.operand_byte (h : Planned cs l st prog) (hins : prog.instructions[i]? = some ins) {v : Value}
    (hv : argAt? cs i k = some v) : ins.operands.bytes[k]? = some ((st i).byteOf v) := by
  obtain ⟨c, hc, hk⟩ := argAt?_eq_some_iff.1 hv
  have hlt := (List.getElem?_eq_some_iff.1 hk).1
  rw [h.operands_bytes hins hc, List.getElem?_append_left (by simpa using hlt), List.getElem?_map, hk]
  rfl

/-- **An operand that reads a value names the slot in which it is held.** -/
theorem Planned.operand (h : Planned cs l st prog) (hins : prog.instructions[i]? = some ins) {v : Value} {x : Source}
    (hv : argAt? cs i k = some v) (hx : v.source? = some x) :
    ∃ last n, Held l i i (st i) x last n ∧ n < prog.state.length ∧
      ins.operands.bytes[k]? = some (SlotRef.slot (.ofNat n) v.isDynamic).toByte := by
  have hr := reads_of_argAt? hv hx
  have hi := Nat.le_of_lt hr.lt_length
  obtain ⟨last, n, hheld⟩ := h.held_of_reads hr
  refine ⟨last, n, hheld, Nat.lt_of_lt_of_le ((h.balanced i hi).lt_length_of_held hheld) (h.length_table_le hi), ?_⟩
  rw [h.operand_byte hins hv, Slots.byteOf, hx]
  simp [hheld.2.2.2]

/-- **A result that is read has its slot in its command's result byte**, the lowest that nothing else needs behind the
command. -/
theorem Planned.result (h : Planned cs l st prog) (hins : prog.instructions[i]? = some ins) (hc : cs[i]? = some c)
    {last : Nat} (hlast : l.lastRead? (.result i) = some last) :
    ∃ n, Held l (i + 1) (i + 1) (st (i + 1)) (.result i) last n ∧ n < prog.state.length ∧
      ins.result = (SlotRef.slot (.ofNat n) c.call.outputIsDynamic).toByte ∧
      n ∉ ((st i).release i).used ∧ ∀ n' < n, n' ∈ ((st i).release i).used := by
  have hi := (List.getElem?_eq_some_iff.1 hc).1
  have hb := (h.balanced i (Nat.le_of_lt hi)).release
  obtain ⟨-, n, s₁, ht, hst, hbyte⟩ := (h.step_at hins hc).2.of_read hlast
  have hlt : i < last := h.ordered i last ((h.exact.lastRead_iff _ _).1 hlast).1
  have hheld : Held l (i + 1) (i + 1) (st (i + 1)) (.result i) last n := by
    rw [hst]
    exact (Slots.held_place hb ht hlast hlt).2 (.inl ⟨rfl, rfl, rfl⟩)
  refine ⟨n, hheld, ?_, by rw [hbyte]; rfl, ht.not_mem_used, ht.least⟩
  exact Nat.lt_of_lt_of_le ((h.balanced (i + 1) hi).lt_length_of_held hheld) (h.length_table_le hi)

theorem Planned.result_byte_unread (h : Planned cs l st prog) (hins : prog.instructions[i]? = some ins)
    (hc : cs[i]? = some c) (hnone : l.lastRead? (.result i) = none) :
    ins.result = if c.replacesState then SlotRef.state.toByte else SlotRef.absent.toByte := by
  rw [((h.step_at hins hc).2.of_unread hnone).1]
  rfl

/-! ## Where values are kept -/

/-- **The table starts with the literals**, and empty slots fill it up. -/
theorem Planned.state_eq (h : Planned cs l st prog) : ∃ d, prog.state = literalsOf cs ++ List.replicate d [] := by
  obtain ⟨d, hd⟩ := h.table_prefix (Nat.zero_le _) (Nat.le_refl cs.length)
  refine ⟨d, ?_⟩
  rw [← h.table_eq, hd, h.first, ← h.exact.literals_eq]
  rfl

/-- **The slot of a literal is its place among the literals**, also when the slot has gone to a result. -/
theorem Planned.slot?_literal (h : Planned cs l st prog) {n : Nat} {bs : Bytes} (hi : i ≤ cs.length)
    (hn : (st i).slot? (.literal bs) = some n) : (literalsOf cs)[n]? = some bs := by
  have hknown : Source.KnownAt 0 (.literal bs) := trivial
  rw [h.slot?_eq hknown (Nat.zero_le i) hi, h.first] at hn
  obtain ⟨last, hlast⟩ := (Slots.slot?_ofLiterals h.exact.nodup_literals).1 hn
  rw [← h.exact.literals_eq, List.getElem?_map, hlast]
  rfl

theorem Planned.slot?_held (h : Planned cs l st prog) {m last n : Nat} {x : Source} (hi : i ≤ cs.length)
    (hx : Held l i m (st i) x last n) : (st cs.length).slot? x = some n := by
  rw [h.slot?_eq hx.1 hi (Nat.le_refl _)]
  exact hx.2.2.2

theorem Planned.index?_ofByte (h : Planned cs l st prog) {n : Nat} (hn : n < prog.state.length) (d : Bool) :
    (SlotRef.ofByte (SlotRef.slot (.ofNat n) d).toByte).index? = some n :=
  SlotRef.index?_ofByte_slot (Nat.lt_of_lt_of_le hn h.length_state_le) d

theorem Planned.keeps_literal_iff (h : Planned cs l st prog) {bs : Bytes} {n : Nat} :
    prog.Keeps cs (.literal bs) n ↔ (st cs.length).slot? (.literal bs) = some n := by
  constructor
  · rintro ⟨i, k, v, ins, b, hv, hx, hins, hb, hn⟩
    obtain ⟨last, n', hheld, hlt, hb'⟩ := h.operand hins hv hx
    rw [hb] at hb'
    cases hb'
    rw [h.index?_ofByte hlt] at hn
    cases hn
    exact h.slot?_held (Nat.le_of_lt (reads_of_argAt? hv hx).lt_length) hheld
  · intro hn
    -- a literal with a slot stands in the list of literals, so some command reads it
    obtain ⟨i, hi⟩ := mem_literalsOf.1 (List.mem_of_getElem? (h.slot?_literal (Nat.le_refl _) hn))
    obtain ⟨k, v, harg, hs⟩ := exists_argAt?_of_reads hi
    obtain ⟨c, hc, -⟩ := argAt?_eq_some_iff.1 harg
    obtain ⟨ins, hins, -⟩ := h.instruction hc
    obtain ⟨last', n', hheld, hlt, hb⟩ := h.operand hins harg hs
    have hsame := h.slot?_held (Nat.le_of_lt hi.lt_length) hheld
    rw [hn] at hsame
    exact ⟨i, k, v, ins, _, harg, hs, hins, hb, (h.index?_ofByte hlt _).trans hsame.symm⟩

/-- **A result byte that names a slot belongs to a result that is read, and names its slot.** -/
theorem Planned.result_of_index? (h : Planned cs l st prog) {n : Nat} (hins : prog.instructions[i]? = some ins)
    (hn : (SlotRef.ofByte ins.result).index? = some n) :
    ∃ last, Held l (i + 1) (i + 1) (st (i + 1)) (.result i) last n ∧ n ∉ ((st i).release i).used := by
  have hi : i < cs.length := h.length_eq ▸ (List.getElem?_eq_some_iff.1 hins).1
  have hc : cs[i]? = some (cs.get ⟨i, hi⟩) := List.getElem?_eq_getElem hi
  cases hlast : l.lastRead? (.result i) with
  | none =>
    rw [h.result_byte_unread hins hc hlast] at hn
    split at hn <;> simp [SlotRef.ofByte_state, SlotRef.ofByte_absent, SlotRef.index?] at hn
  | some last =>
    obtain ⟨n', hheld, hlt, hr, hfree, -⟩ := h.result hins hc hlast
    rw [hr, h.index?_ofByte hlt] at hn
    cases hn
    exact ⟨last, hheld, hfree⟩

theorem Planned.keeps_result_iff (h : Planned cs l st prog) {j n : Nat} :
    prog.Keeps cs (.result j) n ↔ (st cs.length).slot? (.result j) = some n := by
  constructor
  · rintro ⟨ins, hins, hn⟩
    obtain ⟨last, hheld, -⟩ := h.result_of_index? hins hn
    exact h.slot?_held (h.length_eq ▸ (List.getElem?_eq_some_iff.1 hins).1) hheld
  · intro hn
    have hj : j < cs.length := (h.balanced cs.length (Nat.le_refl _)).known _ n hn
    have hc : cs[j]? = some (cs.get ⟨j, hj⟩) := List.getElem?_eq_getElem hj
    obtain ⟨ins, hins, -⟩ := h.instruction hc
    have hknown : Source.KnownAt (j + 1) (.result j) := Nat.lt_succ_self j
    rw [h.slot?_eq hknown hj (Nat.le_refl _)] at hn
    cases hlast : l.lastRead? (.result j) with
    | none =>
      rw [((h.step_at hins hc).2.of_unread hlast).2, Slots.slot?_release,
        (h.balanced j (Nat.le_of_lt hj)).slot?_result] at hn
      cases hn
    | some last =>
      obtain ⟨n', hheld, hlt, hr, -⟩ := h.result hins hc hlast
      rw [hheld.2.2.2] at hn
      cases hn
      exact ⟨ins, hins, by rw [hr, h.index?_ofByte hlt]⟩

/-- **A program keeps values in the slots that its plan gave them.** -/
theorem Planned.keeps_iff (h : Planned cs l st prog) {x : Source} {n : Nat} :
    prog.Keeps cs x n ↔ (st cs.length).slot? x = some n := by
  cases x with
  | literal bs => exact h.keeps_literal_iff
  | result j => exact h.keeps_result_iff

/-- **Once the command at `i` has released its slots, those in use are where the program keeps what is read later.** -/
theorem Planned.mem_used_release_iff (h : Planned cs l st prog) {n : Nat} (hi : i < cs.length) :
    n ∈ ((st i).release i).used ↔ ∃ x, Needed cs i (i + 1) x ∧ prog.Keeps cs x n := by
  rw [(h.balanced i (Nat.le_of_lt hi)).release.mem_used]
  constructor
  · rintro ⟨x, last, hx⟩
    refine ⟨x, needed_iff_last.2 ⟨hx.1, last, hx.2.2.1, (h.exact.lastRead_iff _ _).1 hx.2.1⟩, h.keeps_iff.2 ?_⟩
    rw [h.slot?_eq hx.1 (Nat.le_of_lt hi) (Nat.le_refl _), ← Slots.slot?_release _ i]
    exact hx.2.2.2
  · rintro ⟨x, hneeded, hkeeps⟩
    obtain ⟨hknown, last, hm, hlast⟩ := needed_iff_last.1 hneeded
    rw [h.keeps_iff, h.slot?_eq hknown (Nat.le_of_lt hi) (Nat.le_refl _), ← Slots.slot?_release _ i] at hkeeps
    exact ⟨x, last, hknown, (h.exact.lastRead_iff _ _).2 hlast, hm, hkeeps⟩

end
end CallPlan
