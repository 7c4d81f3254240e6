import CallPlan.Proofs.WellFormed
/-!
# Literals in the table

The table that a program starts with lists the literals in the order in which a reader of the commands first meets them, and
behind them only empty slots; every operand of a literal names its place in that list (`plan_literalTable`).  The order comes
from cutting the commands off in front of an argument: what is met before it is a beginning of the list
(`literalsOf_cutAt_isPrefix`).
-/
namespace CallPlan

/-- **Argument `k` of the command at `i` comes before argument `k'` of the command at `i'`.** -/
def ArgBefore (i k i' k' : Nat) : Prop := i < i' ∨ i = i' ∧ k < k'

/-- **The literal is first met in argument `k` of the command at `i`**, whatever types it has there and later. -/
def FirstMet (cs : List Command) (bs : Bytes) (i k : Nat) : Prop :=
  (∃ ty, argAt? cs i k = some (.literal ty bs)) ∧
    ∀ i' k' ty, ArgBefore i' k' i k → argAt? cs i' k' ≠ some (.literal ty bs)

/-! ## The order of the literals -/

theorem eraseDups_isPrefix_append (xs ys : List Bytes) : xs.eraseDups <+: (xs ++ ys).eraseDups := by
  rw [List.eraseDups_append]
  exact List.prefix_append _ _

theorem literalsOf_isPrefix_of_sources {cs cs' : List Command} (h : sourcesOf cs <+: sourcesOf cs') :
    literalsOf cs <+: literalsOf cs' := by
  obtain ⟨rest, hrest⟩ := h.filterMap Source.bytes?
  unfold literalsOf
  rw [← hrest]
  exact eraseDups_isPrefix_append _ rest

theorem mem_literalsOf_iff_argAt? {cs : List Command} {bs : Bytes} :
    bs ∈ literalsOf cs ↔ ∃ i k ty, argAt? cs i k = some (.literal ty bs) := by
  simp only [mem_literalsOf, reads_literal_iff]

/-- The commands up to argument `k` of the command at `i`, which keeps the arguments before it. -/
def cutAt : List Command → Nat → Nat → List Command
  | [],      _,     _ => []
  | c :: _,  0,     k => [{ c with call := { c.call with args := c.call.args.take k } }]
  | c :: cs, i + 1, k => c :: cutAt cs i k

theorem argAt?_cutAt {k k' : Nat} {v : Value} : ∀ {cs : List Command} {i i' : Nat},
    argAt? (cutAt cs i k) i' k' = some v ↔ ArgBefore i' k' i k ∧ argAt? cs i' k' = some v
  | [], i, i' => by simp [cutAt, argAt?]
  | c :: cs, 0, 0 => by simp [cutAt, argAt?, ArgBefore, List.getElem?_take]
  | c :: cs, 0, i' + 1 => by simp [cutAt, argAt?, ArgBefore]
  | c :: cs, i + 1, 0 => by simp [cutAt, argAt?, ArgBefore]
  | c :: cs, i + 1, i' + 1 => by
    have ih := @argAt?_cutAt k k' v cs i i'
    unfold ArgBefore at ih ⊢
    rw [Nat.add_lt_add_iff_right, Nat.add_right_cancel_iff]
    exact ih

theorem sourcesOf_cutAt_isPrefix (k : Nat) : ∀ (cs : List Command) (i : Nat), sourcesOf (cutAt cs i k) <+: sourcesOf cs
  | [], _ => List.prefix_refl _
  | c :: cs, 0 => by
    -- the arguments from `k` on and the later commands are what is missing
    refine ⟨(c.call.args.drop k).filterMap Value.source? ++ sourcesOf cs, ?_⟩
    have hargs : (c.call.args.take k).filterMap Value.source? ++ (c.call.args.drop k).filterMap Value.source? =
        c.sources := by
      rw [← List.filterMap_append, List.take_append_drop]
      rfl
    rw [← List.append_assoc]
    simp only [cutAt, sourcesOf, List.flatMap_cons, List.flatMap_nil, List.append_nil]
    rw [← hargs]
    rfl
  | c :: cs, i + 1 => (List.prefix_append_right_inj c.sources).2 (sourcesOf_cutAt_isPrefix k cs i)

/-- **What is met before an argument is a beginning of the list of literals.** -/
theorem literalsOf_cutAt_isPrefix (cs : List Command) (i k : Nat) : literalsOf (cutAt cs i k) <+: literalsOf cs :=
  literalsOf_isPrefix_of_sources (sourcesOf_cutAt_isPrefix k cs i)

theorem exists_firstMet {cs : List Command} {bs : Bytes} (h : bs ∈ literalsOf cs) : ∃ i k, FirstMet cs bs i k := by
  classical
  -- the least command that has the literal, and there the least argument
  have hi : ∃ i k ty, argAt? cs i k = some (.literal ty bs) := mem_literalsOf_iff_argAt?.1 h
  have hk := Nat.find_spec hi
  refine ⟨Nat.find hi, Nat.find hk, Nat.find_spec hk, fun i' k' ty hlt hv => ?_⟩
  rcases hlt with hlt | ⟨rfl, hlt⟩
  · exact Nat.find_min hi hlt ⟨k', ty, hv⟩
  · exact Nat.find_min hk hlt ⟨ty, hv⟩

theorem nodup_literalsOf (cs : List Command) : (literalsOf cs).Nodup := nodup_eraseDups _

/-- **A literal that is met earlier stands earlier in the list.** -/
theorem FirstMet.lt_of_before {cs : List Command} {b b' : Bytes} {i k i' k' n n' : Nat} (h : FirstMet cs b i k)
    (h' : FirstMet cs b' i' k') (hbefore : ArgBefore i k i' k') (hn : (literalsOf cs)[n]? = some b)
    (hn' : (literalsOf cs)[n']? = some b') : n < n' := by
  -- in front of the first occurrence of `b'` the list so far holds `b` and not `b'`
  have hcut := literalsOf_cutAt_isPrefix cs i' k'
  obtain ⟨ty, hty⟩ := h.1
  have hb : b ∈ literalsOf (cutAt cs i' k') := mem_literalsOf_iff_argAt?.2 ⟨i, k, ty, argAt?_cutAt.2 ⟨hbefore, hty⟩⟩
  have hb' : b' ∉ literalsOf (cutAt cs i' k') := by
    intro hmem
    obtain ⟨i₁, k₁, ty₁, hv⟩ := mem_literalsOf_iff_argAt?.1 hmem
    obtain ⟨hlt, hv⟩ := argAt?_cutAt.1 hv
    exact h'.2 i₁ k₁ ty₁ hlt hv
  obtain ⟨m, hm⟩ := List.mem_iff_getElem?.1 hb
  have hlt := (List.getElem?_eq_some_iff.1 hm).1
  have hmn : m = n := by
    have hm' := getElem?_of_isPrefix hcut hm
    have hmlt := (List.getElem?_eq_some_iff.1 hm').1
    exact (List.getElem?_inj hmlt (nodup_literalsOf cs)).1 (hm'.trans hn.symm)
  by_contra hle
  obtain ⟨rest, hrest⟩ := hcut
  rw [← hrest, List.getElem?_append_left (by omega)] at hn'
  exact hb' (List.mem_of_getElem? hn')

theorem FirstMet.lt_iff_before {cs : List Command} {b b' : Bytes} {i k i' k' n n' : Nat} (h : FirstMet cs b i k)
    (h' : FirstMet cs b' i' k') (hn : (literalsOf cs)[n]? = some b) (hn' : (literalsOf cs)[n']? = some b') :
    n < n' ↔ ArgBefore i k i' k' := by
  refine ⟨fun hlt => ?_, fun hbefore => h.lt_of_before h' hbefore hn hn'⟩
  have htotal : ArgBefore i k i' k' ∨ i = i' ∧ k = k' ∨ ArgBefore i' k' i k := by unfold ArgBefore; omega
  rcases htotal with hbefore | ⟨rfl, rfl⟩ | hbefore
  · exact hbefore
  · -- one argument is one literal, and the list has it once
    obtain ⟨ty, hty⟩ := h.1
    obtain ⟨ty', hty'⟩ := h'.1
    rw [hty] at hty'
    cases hty'
    have hnlt := (List.getElem?_eq_some_iff.1 hn).1
    have := (List.getElem?_inj hnlt (nodup_literalsOf cs)).1 (hn.trans hn'.symm)
    omega
  · have := h'.lt_of_before h hbefore hn' hn
    omega

/-! ## The table -/

section
variable {cs : List Command} {l : Lifetimes} {st : Nat → Slots} {prog : Program}

theorem Planned.literal_operand (h : Planned cs l st prog) {i k : Nat} {ty : AbiType} {bs : Bytes}
    (hv : argAt? cs i k = some (.literal ty bs)) :
    ∃ ins b, prog.instructions[i]? = some ins ∧ ins.operands.bytes[k]? = some b ∧
      (literalsOf cs)[(b &&& 0x7F).toNat]? = some bs := by
  obtain ⟨c, hc, -⟩ := argAt?_eq_some_iff.1 hv
  obtain ⟨ins, hins, -⟩ := h.instruction hc
  obtain ⟨last, n, hheld, hn, hb⟩ := h.operand hins hv rfl
  refine ⟨ins, _, hins, hb, ?_⟩
  rw [(SlotRef.toByte_slot (h.lt_maxSlots hn) _).2.2.1]
  exact h.slot?_literal (Nat.le_of_lt (List.getElem?_eq_some_iff.1 hc).1) hheld.2.2.2

end

/-- **The table starts with the literals.**  It holds each literal of the commands once, in the order in which they are first
met by command and argument, and empty slots behind them.  The low seven bits of an operand byte that stands for a literal
are the place of its bytes among the literals, whatever its type. -/
theorem plan_literalTable (p : Planner) (prog : Program) (h : p.plan = .ok prog) :
    (∃ d, prog.state = literalsOf p.commands ++ List.replicate d []) ∧
    (literalsOf p.commands).Nodup ∧
    (∀ bs, bs ∈ literalsOf p.commands ↔ ∃ i k, FirstMet p.commands bs i k) ∧
    (∀ (n n' : Nat) (b b' : Bytes) (i k i' k' : Nat),
      (literalsOf p.commands)[n]? = some b → (literalsOf p.commands)[n']? = some b' →
      FirstMet p.commands b i k → FirstMet p.commands b' i' k' → (n < n' ↔ ArgBefore i k i' k')) ∧
    ∀ i k ty bs, argAt? p.commands i k = some (.literal ty bs) →
      ∃ ins b, prog.instructions[i]? = some ins ∧ ins.operands.bytes[k]? = some b ∧
        (literalsOf p.commands)[(b &&& 0x7F).toNat]? = some bs := by
  obtain ⟨-, l, st, hp⟩ := plan_ok h
  refine ⟨hp.state_eq, nodup_literalsOf _, fun bs => ⟨exists_firstMet, ?_⟩, ?_, fun i k ty bs hv => hp.literal_operand hv⟩
  · rintro ⟨i, k, ⟨ty, hv⟩, -⟩
    exact mem_literalsOf_iff_argAt?.2 ⟨i, k, ty, hv⟩
  · intro n n' b b' i k i' k' hn hn' hb hb'
    exact hb.lt_iff_before hb' hn hn'

/-! ## A literal of two types

The bytes `1` are read as a number and as a blob, from one slot.  The slot of the literal `2` goes to the result. -/

def storeFunction : Function := ⟨"store", [⟨"", .uint 256⟩, ⟨"", .bytes⟩], []⟩

def storedSum : Planner where
  id := 0
  commands :=
    [⟨⟨Block.fill 20 0xEE, addFunction, [.literal (.uint 256) [1], .literal (.uint 256) [2]]⟩, false⟩,
      ⟨⟨Block.fill 20 0xEE, storeFunction, [.result ⟨.uint 256, ⟨0, 0⟩⟩, .literal .bytes [1]]⟩, false⟩]

theorem plan_storedSum :
    storedSum.plan = .ok
      ⟨[⟨addFunction.selector, Instruction.operandBlock [0, 1], 1, Block.fill 20 0xEE⟩,
        ⟨storeFunction.selector, Instruction.operandBlock [1, 0x80], 0xFF, Block.fill 20 0xEE⟩], [[1], [2]]⟩ := rfl

theorem plan_literalTable_storedSum :
    ∃ prog ins, storedSum.plan = .ok prog ∧ (∃ d, prog.state = [[1], [2]] ++ List.replicate d []) ∧
      prog.instructions[1]? = some ins ∧ ins.operands.bytes[1]? = some 0x80 ∧
      (literalsOf storedSum.commands)[((0x80 : UInt8) &&& 0x7F).toNat]? = some [1] := by
  obtain ⟨hstate, -, -, -, hoperand⟩ := plan_literalTable storedSum _ plan_storedSum
  obtain ⟨ins, b, hins, hb, hplace⟩ := hoperand 1 1 .bytes [1] rfl
  obtain rfl := Option.some.inj hins
  obtain rfl : 0x80 = b := Option.some.inj hb
  exact ⟨_, _, plan_storedSum, hstate, rfl, rfl, hplace⟩

end CallPlan
