import CallPlan.Proofs.Placement
import CallPlan.Proofs.Validation
/-!
# Planned programs, byte for byte

The bytes of an instruction say what its command says and nothing else (`Instruction.Spells`), and a planned program passes
its own check (`plan_wellFormed`).  Both rest on the slots that were given out: each lies in the table, and no table is
longer than the slots whose bytes keep clear of the two that name no slot.
-/
namespace CallPlan

/-! ## Bytes -/

namespace SlotRef

/-- What the byte of a slot is not, and what its bits are. -/
theorem of_ofByte_eq_slot {b i : UInt8} {d : Bool} (h : ofByte b = .slot i d) :
    b ≠ 0xFF ∧ b ≠ 0xFE ∧ b &&& 0x7F = i ∧ (b &&& 0x80 ≠ 0 ↔ d = true) := by
  rcases ofByte_cases b with ⟨-, hb⟩ | ⟨-, hb⟩ | ⟨hff, hfe, hb⟩
  · rw [hb] at h
    cases h
  · rw [hb] at h
    cases h
  · rw [hb] at h
    obtain ⟨hi, hd⟩ := SlotRef.slot.inj h
    exact ⟨hff, hfe, hi, by rw [← hd, bne_iff_ne]⟩

/-- **A slot that can be named is named by a byte of its own**, with either flag. -/
theorem toByte_slot {n : Nat} (h : n < maxSlots) (d : Bool) :
    (slot (.ofNat n) d).toByte ≠ 0xFF ∧ (slot (.ofNat n) d).toByte ≠ 0xFE ∧
      ((slot (.ofNat n) d).toByte &&& 0x7F).toNat = n ∧ ((slot (.ofNat n) d).toByte &&& 0x80 ≠ 0 ↔ d = true) := by
  obtain ⟨hff, hfe, hi, hd⟩ := of_ofByte_eq_slot (ofByte_slot h d)
  exact ⟨hff, hfe, by rw [hi, toNat_ofNat_slot h], hd⟩

/-- **The byte is not absent, and a slot that it names lies in a table of the size.** -/
def Fits (size : Nat) (b : UInt8) : Prop := b ≠ absent.toByte ∧ ∀ n, (ofByte b).index? = some n → n < size

theorem fits_state (size : Nat) : Fits size state.toByte := by
  refine ⟨by decide, fun n hn => ?_⟩
  rw [ofByte_state] at hn
  cases hn

theorem fits_slot {size n : Nat} (hn : n < size) (hmax : n < maxSlots) (d : Bool) :
    Fits size (slot (.ofNat n) d).toByte := by
  refine ⟨(toByte_slot hmax d).1, fun m hm => ?_⟩
  rw [index?_ofByte_slot hmax] at hm
  cases hm
  exact hn

end SlotRef

/-! ## The bytes of one instruction -/

theorem Call.outputIsDynamic_iff (call : Call) :
    call.outputIsDynamic = true ↔ ∃ out, call.function.outputs.head? = some out ∧ out.kind.isDynamic = true := by
  unfold outputIsDynamic
  cases call.function.outputs <;> simp

/-- **An instruction says in its bytes what the command at `i` says**, for a table of the size. -/
structure Instruction.Spells (cs : List Command) (size i : Nat) (c : Command) (ins : Instruction) : Prop where
  selector_eq : ins.selector = c.call.selector
  address_eq : ins.address = c.call.address
  arity_le : c.call.args.length ≤ maxOperands
  absent_iff : ∀ (k : Nat) (b : UInt8), ins.operands.bytes[k]? = some b → (b = 0xFF ↔ c.call.args.length ≤ k)
  operand : ∀ (k : Nat) (v : Value), c.call.args[k]? = some v → ∃ b, ins.operands.bytes[k]? = some b ∧
    (b = 0xFE ↔ v = .state) ∧ (b &&& 0x80 ≠ 0 ↔ v.kind.isDynamic = true) ∧ (v ≠ .state → (b &&& 0x7F).toNat < size)
  result_state_iff : ins.result = 0xFE ↔ c.replacesState = true
  result_absent_iff : ins.result = 0xFF ↔ c.replacesState = false ∧ ∀ k, i < k → ¬ Reads cs (.result i) k
  result_slot : ins.result ≠ 0xFE → ins.result ≠ 0xFF →
    (ins.result &&& 0x7F).toNat < size ∧
      (ins.result &&& 0x80 ≠ 0 ↔ ∃ out, c.call.function.outputs.head? = some out ∧ out.kind.isDynamic = true)

section
variable {cs : List Command} {l : Lifetimes} {st : Nat → Slots} {prog : Program} {i k : Nat} {c : Command}
  {ins : Instruction}

theorem Planned.lt_maxSlots (h : Planned cs l st prog) {n : Nat} (hn : n < prog.state.length) : n < maxSlots :=
  Nat.lt_of_lt_of_le hn h.length_state_le

/-- **The byte of an argument**: the whole table's, or that of a slot in the table. -/
theorem Planned.byteOf_cases (h : Planned cs l st prog) {v : Value} (hv : argAt? cs i k = some v) :
    (v = .state ∧ (st i).byteOf v = SlotRef.state.toByte) ∨
      (v ≠ .state ∧ ∃ n, n < prog.state.length ∧ (st i).byteOf v = (SlotRef.slot (.ofNat n) v.isDynamic).toByte) := by
  cases hx : v.source? with
  | none => cases v <;> cases hx; exact .inl ⟨rfl, rfl⟩
  | some x =>
    obtain ⟨c, hc, -⟩ := argAt?_eq_some_iff.1 hv
    obtain ⟨ins, hins, -⟩ := h.instruction hc
    obtain ⟨last, n, -, hn, hb⟩ := h.operand hins hv hx
    rw [h.operand_byte hins hv] at hb
    refine .inr ⟨?_, n, hn, Option.some.inj hb⟩
    rintro rfl
    cases hx

theorem Planned.operand_fits (h : Planned cs l st prog) (hc : cs[i]? = some c) :
    ∀ b ∈ c.call.args.map (st i).byteOf, SlotRef.Fits prog.state.length b := by
  intro b hb
  obtain ⟨v, hv, rfl⟩ := List.mem_map.1 hb
  obtain ⟨k, hk⟩ := List.mem_iff_getElem?.1 hv
  rcases h.byteOf_cases (argAt?_eq_some_iff.2 ⟨c, hc, hk⟩) with ⟨-, he⟩ | ⟨-, n, hn, he⟩
  · rw [he]
    exact SlotRef.fits_state _
  · rw [he]
    exact SlotRef.fits_slot hn (h.lt_maxSlots hn) _

/-- **The result byte**: without readers it names no slot, with readers it names the result's. -/
theorem Planned.result_cases (h : Planned cs l st prog) (hins : prog.instructions[i]? = some ins) (hc : cs[i]? = some c) :
    ((∀ k, ¬ Reads cs (.result i) k) ∧
      ins.result = if c.replacesState then SlotRef.state.toByte else SlotRef.absent.toByte) ∨
    (c.replacesState = false ∧ (∃ k, i < k ∧ Reads cs (.result i) k) ∧ ∃ n, n < prog.state.length ∧
      ins.result = (SlotRef.slot (.ofNat n) c.call.outputIsDynamic).toByte) := by
  cases hlast : l.lastRead? (.result i) with
  | none =>
    refine .inl ⟨fun k hk => ?_, h.result_byte_unread hins hc hlast⟩
    obtain ⟨m, -, hm⟩ := hk.exists_last
    rw [(h.exact.lastRead_iff _ _).2 hm] at hlast
    cases hlast
  | some last =>
    have hr := ((h.exact.lastRead_iff _ _).1 hlast).1
    obtain ⟨n, -, hn, hb, -⟩ := h.result hins hc hlast
    exact .inr ⟨((h.step_at hins hc).2.of_read hlast).1, ⟨last, h.ordered i last hr, hr⟩, n, hn, hb⟩

theorem Planned.result_fits (h : Planned cs l st prog) (hins : prog.instructions[i]? = some ins) {n : Nat}
    (hn : (SlotRef.ofByte ins.result).index? = some n) : n < prog.state.length := by
  have hi : i < cs.length := h.length_eq ▸ (List.getElem?_eq_some_iff.1 hins).1
  obtain ⟨last, hheld, -⟩ := h.result_of_index? hins hn
  exact Nat.lt_of_lt_of_le ((h.balanced (i + 1) hi).lt_length_of_held hheld) (h.length_table_le hi)

theorem Planned.executable (h : Planned cs l st prog) (hins : prog.instructions[i]? = some ins) :
    ins.Executable prog.state.length := by
  have hi : i < cs.length := h.length_eq ▸ (List.getElem?_eq_some_iff.1 hins).1
  have hc : cs[i]? = some (cs.get ⟨i, hi⟩) := List.getElem?_eq_getElem hi
  have hbytes := h.operands_bytes hins hc
  refine ⟨⟨_, _, hbytes, fun hff => (h.operand_fits hc _ hff).1 rfl⟩, fun b hb => ?_, ?_⟩
  · rw [hbytes, List.mem_append] at hb
    rcases hb with hb | hb
    · exact SlotRef.names_iff.2 (h.operand_fits hc b hb).2
    · exact .inl (List.eq_of_mem_replicate hb)
  · exact SlotRef.names_iff.2 fun n hn => h.result_fits hins hn

/-- **A planned program passes its check.** -/
theorem Planned.validate_ok (h : Planned cs l st prog) : prog.validate = .ok () := by
  refine prog.validate_eq_ok_iff.2 ⟨h.length_state_le, fun ins hins => ?_⟩
  obtain ⟨i, hi⟩ := List.mem_iff_getElem?.1 hins
  exact h.executable hi

theorem Planned.spells (h : Planned cs l st prog) (hins : prog.instructions[i]? = some ins) (hc : cs[i]? = some c) :
    ins.Spells cs prog.state.length i c where
  selector_eq := by rw [(h.step_at hins hc).2.instruction_eq]; rfl
  address_eq := by rw [(h.step_at hins hc).2.instruction_eq]; rfl
  arity_le := (h.step_at hins hc).1
  absent_iff k b hb := by
    rw [h.operands_bytes hins hc, List.getElem?_append, List.length_map] at hb
    split at hb
    · rename_i hk
      have hne : b ≠ 0xFF := (h.operand_fits hc b (List.mem_of_getElem? hb)).1
      exact ⟨fun he => absurd he hne, fun hle => absurd hk (Nat.not_lt_of_le hle)⟩
    · rename_i hk
      exact ⟨fun _ => Nat.le_of_not_lt hk, fun _ => List.eq_of_mem_replicate (List.mem_of_getElem? hb)⟩
  operand k v hv := by
    have harg := argAt?_eq_some_iff.2 ⟨c, hc, hv⟩
    refine ⟨_, h.operand_byte hins harg, ?_⟩
    rcases h.byteOf_cases harg with ⟨rfl, he⟩ | ⟨hstate, n, hn, he⟩
    · rw [he]
      exact ⟨by decide, by decide, fun hne => absurd rfl hne⟩
    · obtain ⟨-, hfe, hlow, hflag⟩ := SlotRef.toByte_slot (h.lt_maxSlots hn) v.isDynamic
      rw [he]
      exact ⟨⟨fun hb => absurd hb hfe, fun hv => absurd hv hstate⟩, hflag, fun _ => by rw [hlow]; exact hn⟩
  result_state_iff := by
    rcases h.result_cases hins hc with ⟨-, hb⟩ | ⟨hrep, -, n, hn, hb⟩
    · rw [hb]
      cases c.replacesState <;> decide
    · rw [hb, hrep]
      exact ⟨fun he => absurd he (SlotRef.toByte_slot (h.lt_maxSlots hn) _).2.1, fun he => by cases he⟩
  result_absent_iff := by
    rcases h.result_cases hins hc with ⟨hnone, hb⟩ | ⟨-, ⟨k, hik, hk⟩, n, hn, hb⟩
    · rw [hb]
      have hall : ∀ k, i < k → ¬ Reads cs (.result i) k := fun k _ => hnone k
      cases c.replacesState
      · exact ⟨fun _ => ⟨rfl, hall⟩, fun _ => rfl⟩
      · exact ⟨fun he => absurd he (by decide), fun he => by cases he.1⟩
    · rw [hb]
      exact ⟨fun he => absurd he (SlotRef.toByte_slot (h.lt_maxSlots hn) _).1, fun he => absurd hk (he.2 k hik)⟩
  result_slot hfe hff := by
    rcases h.result_cases hins hc with ⟨-, hb⟩ | ⟨-, -, n, hn, hb⟩
    · rw [hb] at hfe hff
      cases hrep : c.replacesState
      · rw [hrep] at hff
        exact absurd rfl hff
      · rw [hrep] at hfe
        exact absurd rfl hfe
    · obtain ⟨-, -, hlow, hflag⟩ := SlotRef.toByte_slot (h.lt_maxSlots hn) c.call.outputIsDynamic
      rw [hb, ← Call.outputIsDynamic_iff]
      exact ⟨by rw [hlow]; exact hn, hflag⟩

end

/-! ## A whole program -/

/-- **A planned program is well formed, byte for byte.**  It passes its check, has one instruction for each command, in which
the bytes say what the command says, and no byte of a slot in its table is one of the two that name no slot. -/
theorem plan_wellFormed (p : Planner) (prog : Program) (h : p.plan = .ok prog) :
    prog.validate = .ok () ∧
    prog.instructions.length = p.commands.length ∧
    (∀ (i : Nat) (c : Command), p.commands[i]? = some c →
      ∃ ins, prog.instructions[i]? = some ins ∧ ins.Spells p.commands prog.state.length i c) ∧
    ∀ n < prog.state.length, ∀ d : Bool,
      (SlotRef.slot (.ofNat n) d).toByte ≠ 0xFE ∧ (SlotRef.slot (.ofNat n) d).toByte ≠ 0xFF := by
  obtain ⟨-, l, st, hp⟩ := plan_ok h
  refine ⟨hp.validate_ok, hp.length_eq, fun i c hc => ?_, fun n hn d => ?_⟩
  · obtain ⟨ins, hins, -⟩ := hp.instruction hc
    exact ⟨ins, hins, hp.spells hins hc⟩
  · obtain ⟨hff, hfe, -⟩ := SlotRef.toByte_slot (hp.lt_maxSlots hn) d
    exact ⟨hfe, hff⟩

/-- A text that one call returns and the next one reads. -/
def spokenName : Planner where
  id := 0
  commands :=
    [⟨⟨Block.fill 20 0xEE, ⟨"name", [], [⟨"", .string⟩]⟩, []⟩, false⟩,
      ⟨⟨Block.fill 20 0xEE, ⟨"say", [⟨"", .string⟩], []⟩, [.result ⟨.string, ⟨0, 0⟩⟩]⟩, false⟩]

theorem plan_wellFormed_spokenName :
    ∃ prog ins, spokenName.plan = .ok prog ∧ prog.validate = .ok () ∧ prog.instructions[0]? = some ins ∧
      ins.result ≠ 0xFE ∧ ins.result ≠ 0xFF ∧ (ins.result &&& 0x7F).toNat < prog.state.length ∧ ins.result &&& 0x80 ≠ 0 := by
  obtain ⟨prog, hplan⟩ : ∃ prog, spokenName.plan = .ok prog := ⟨_, rfl⟩
  obtain ⟨hvalid, -, hspell, -⟩ := plan_wellFormed spokenName prog hplan
  obtain ⟨ins, hins, hs⟩ := hspell 0 _ rfl
  have hfe : ins.result ≠ 0xFE := by
    rw [ne_eq, hs.result_state_iff]
    decide
  have hff : ins.result ≠ 0xFF := by
    rw [ne_eq, hs.result_absent_iff]
    rintro ⟨-, hunread⟩
    exact hunread 1 (by decide) ⟨_, rfl, by decide⟩
  obtain ⟨hlow, hflag⟩ := hs.result_slot hfe hff
  exact ⟨prog, ins, hplan, hvalid, hins, hfe, hff, hlow, hflag.2 ⟨_, rfl, rfl⟩⟩

end CallPlan
