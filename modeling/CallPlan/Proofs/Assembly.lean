import CallPlan.Proofs.Instruction
import CallPlan.Proofs.Slots
/-!
# Assembling, step by step

`assemble_cases` says all that the step at one command can do when the slots are in balance.  From it follow the run: after
any number of commands the slots are in balance (`Planned.balanced`), and a value keeps its slot (`Planned.slot?_eq`).
-/
namespace CallPlan
namespace Slots

/-! ## Literals -/

/-- The slots with a list of literals in them, each behind its last reader. -/
def ofLiterals (lits : List (Bytes × Nat)) : Slots where
  table := lits.map Prod.fst
  expiring := lits.zipIdx.map fun e => (e.1.2, e.2)
  literalSlots := lits.zipIdx.map fun e => (e.1.1, e.2)

theorem ofLiterals_concat (lits : List (Bytes × Nat)) (bs : Bytes) (last : Nat) :
    ofLiterals (lits ++ [(bs, last)]) =
      { ofLiterals lits with
        table := (ofLiterals lits).table ++ [bs]
        expiring := (ofLiterals lits).expiring ++ [(last, lits.length)]
        literalSlots := (ofLiterals lits).literalSlots ++ [(bs, lits.length)] } := by
  simp [ofLiterals, List.zipIdx_append]

theorem addLiterals_ofLiterals : ∀ (lits pre : List (Bytes × Nat)), pre.length ≤ maxSlots →
    (ofLiterals pre).addLiterals lits =
      if (pre ++ lits).length ≤ maxSlots then .ok (ofLiterals (pre ++ lits)) else .error (.slotOverflow none)
  | [], pre, h => by simp [addLiterals, h]
  | (bs, last) :: lits, pre, h => by
    have htable : (ofLiterals pre).table.length = pre.length := by simp [ofLiterals]
    unfold addLiterals grow
    rw [htable]
    by_cases hlt : pre.length < maxSlots
    · simp only [hlt, ↓reduceIte]
      have hlen : (pre ++ [(bs, last)]).length ≤ maxSlots := by
        rw [List.length_append, List.length_singleton]
        exact hlt
      have ih := addLiterals_ofLiterals lits (pre ++ [(bs, last)]) hlen
      rw [ofLiterals_concat] at ih
      rw [ih, List.append_assoc]
      rfl
    · have hnot : ¬ (pre ++ (bs, last) :: lits).length ≤ maxSlots := by
        rw [List.length_append, List.length_cons]
        omega
      rw [if_neg hnot]
      simp [hlt]

/-- **The literals get the first slots, unless there are too many of them.** -/
theorem addLiterals_eq (lits : List (Bytes × Nat)) :
    ({} : Slots).addLiterals lits =
      if lits.length ≤ maxSlots then .ok (ofLiterals lits) else .error (.slotOverflow none) :=
  addLiterals_ofLiterals lits [] (Nat.zero_le _)

theorem slot?_ofLiterals {lits : List (Bytes × Nat)} (hnd : (lits.map Prod.fst).Nodup) {bs : Bytes} {n : Nat} :
    (ofLiterals lits).slot? (.literal bs) = some n ↔ ∃ k, lits[n]? = some (bs, k) := by
  have hkeys : (ofLiterals lits).literalSlots.map Prod.fst = lits.map Prod.fst := by
    calc (lits.zipIdx.map fun e => (e.1.1, e.2)).map Prod.fst
        = (lits.zipIdx.map Prod.fst).map Prod.fst := by rw [List.map_map, List.map_map]; rfl
      _ = lits.map Prod.fst := by rw [List.zipIdx_map_fst]
  rw [slot?, Table.lookup_eq_some_iff_mem (hkeys ▸ hnd)]
  simp [ofLiterals, List.mem_zipIdx_iff_getElem?]

/-- **With the literals in the first slots, the slots are in balance.** -/
theorem Balanced.ofLiterals {l : Lifetimes} (hnd : (l.literals.map Prod.fst).Nodup)
    (hlen : l.literals.length ≤ maxSlots) : Balanced l 0 0 (ofLiterals l.literals) := by
  -- at the start only literals are known, each where it stands in the list
  have hheld : ∀ {x k n}, Held l 0 0 (Slots.ofLiterals l.literals) x k n ↔
      ∃ bs, x = .literal bs ∧ l.literals[n]? = some (bs, k) := by
    intro x k n
    cases x with
    | result j => simp [Held, Source.KnownAt]
    | literal bs =>
      simp only [Held, Source.KnownAt, Nat.zero_le, true_and, Lifetimes.lastRead?, slot?_ofLiterals hnd,
        Source.literal.injEq, exists_eq_left']
      constructor
      · rintro ⟨hk, k', hn⟩
        have hk' := (Table.lookup_eq_some_iff_mem hnd).2 (List.mem_of_getElem? hn)
        rw [hk] at hk'
        cases hk'
        exact hn
      · exact fun hn => ⟨(Table.lookup_eq_some_iff_mem hnd).2 (List.mem_of_getElem? hn), k, hn⟩
  refine ⟨.nil, ?_, ?_, fun k n => ?_, fun x y k k' n hx hy => ?_, fun x k hk hx => ?_, fun x n hn => ?_⟩
  · have hused : (Slots.ofLiterals l.literals).used = List.range l.literals.length := by
      rw [used, Slots.ofLiterals, List.map_map, List.range_eq_range', ← List.zipIdx_map_snd 0 l.literals]
      rfl
    rw [hused]
    simp [Slots.ofLiterals]
  · simpa [Slots.ofLiterals] using hlen
  · simp only [hheld]
    simp [Slots.ofLiterals, List.mem_zipIdx_iff_getElem?]
  · obtain ⟨bs, rfl, hb⟩ := hheld.1 hx
    obtain ⟨bs', rfl, hb'⟩ := hheld.1 hy
    rw [hb] at hb'
    cases hb'
    rfl
  · cases x with
    | result j => exact absurd hk (Nat.not_lt_zero j)
    | literal bs =>
      obtain ⟨n, hn⟩ := List.mem_iff_getElem?.1 ((Table.lookup_eq_some_iff_mem hnd).1 hx)
      exact ⟨n, (slot?_ofLiterals hnd).2 ⟨k, hn⟩⟩
  · cases x with
    | literal bs => trivial
    | result j => cases hn

/-! ## One command -/

/-- The byte that names an argument whose value has a slot. -/
def byteOf (s : Slots) (v : Value) : UInt8 :=
  match v.source? with
  | none   => SlotRef.state.toByte
  | some x => (SlotRef.slot (.ofNat ((s.slot? x).getD 0)) v.isDynamic).toByte

/-- The instruction of a command, with its result byte. -/
def instructionOf (s : Slots) (c : Command) (result : UInt8) : Instruction :=
  ⟨c.call.selector, Instruction.operandBlock (c.call.args.map s.byteOf), result, c.call.address⟩

theorem operand_eq {s : Slots} {v : Value} (h : ∀ x, v.source? = some x → ∃ n, s.slot? x = some n) (i pos : Nat) :
    s.operand i pos v = .ok (s.byteOf v) := by
  cases v with
  | state => rfl
  | literal ty bs =>
    obtain ⟨n, hn⟩ := h _ rfl
    simp [operand, slotOf?_eq, byteOf, Value.source?, hn]
  | result hd =>
    obtain ⟨n, hn⟩ := h _ rfl
    simp [operand, slotOf?_eq, byteOf, Value.source?, hn]

theorem operands_eq {s : Slots} (i : Nat) : ∀ (vs : List Value) (pos : Nat),
    (∀ v ∈ vs, ∀ x, v.source? = some x → ∃ n, s.slot? x = some n) → s.operands i pos vs = .ok (vs.map s.byteOf)
  | [], _, _ => rfl
  | v :: vs, pos, h => by
    rw [operands, operand_eq (h v List.mem_cons_self) i pos,
      operands_eq i vs (pos + 1) (fun u hu => h u (List.mem_cons_of_mem v hu))]
    rfl

/-- **All that the step at one command can do**: it refuses too many arguments, then a result that both replaces the table
and is read, then a result for which no slot is left; else it reads the operands where they are and gives a result that is
read the lowest slot that nothing needs any more. -/
theorem assemble_cases {l : Lifetimes} {i : Nat} {s : Slots} {c : Command} (h : Balanced l i i s)
    (hread : ∀ x ∈ c.sources, x.KnownAt i ∧ ∃ k, l.lastRead? x = some k) :
    (maxOperands < c.call.args.length ∧
      s.assemble l i c = .error (.operandOverflow i c.call.signature c.call.args.length)) ∨
    c.call.args.length ≤ maxOperands ∧
      ((l.lastRead? (.result i) = none ∧
        s.assemble l i c = .ok (s.instructionOf c
          (if c.replacesState then SlotRef.state.toByte else SlotRef.absent.toByte), s.release i)) ∨
      ∃ last, l.lastRead? (.result i) = some last ∧
        ((c.replacesState = true ∧ s.assemble l i c = .error (.returnReplaceConflict i last)) ∨
          c.replacesState = false ∧
            (((s.release i).free = [] ∧ maxSlots ≤ s.table.length ∧
              s.assemble l i c = .error (.slotOverflow (some i))) ∨
            ∃ n s', Took (s.release i) n s' ∧
              s.assemble l i c = .ok (s.instructionOf c (SlotRef.slot (.ofNat n) c.call.outputIsDynamic).toByte,
                s'.place i last n)))) := by
  have hops : s.operands i 0 c.call.args = .ok (c.call.args.map s.byteOf) := by
    refine operands_eq i c.call.args 0 fun v hv x hx => ?_
    obtain ⟨hk, k, hlast⟩ := hread x (List.mem_filterMap.2 ⟨v, hv, hx⟩)
    exact h.placed x k hk hlast
  unfold assemble
  by_cases hlen : maxOperands < c.call.args.length
  · exact .inl ⟨hlen, by rw [if_pos hlen]⟩
  · refine .inr ⟨Nat.le_of_not_lt hlen, ?_⟩
    rw [if_neg hlen, hops]
    rcases placeResult_cases (s.release i) l i c with
      ⟨hnone, hp⟩ | ⟨last, hlast, ⟨hc, hp⟩ | ⟨hc, ⟨e, ht, hp⟩ | ⟨n, s', ht, hp⟩⟩⟩
    · exact .inl ⟨hnone, by rw [hp]; rfl⟩
    · exact .inr ⟨last, hlast, .inl ⟨hc, by rw [hp]⟩⟩
    · refine .inr ⟨last, hlast, .inr ⟨hc, .inl ?_⟩⟩
      rcases take_cases (s.release i) i with ⟨a, rest, -, he⟩ | ⟨-, -, he⟩ | ⟨hf, hfull, he⟩
      · rw [he] at ht; cases ht
      · rw [he] at ht; cases ht
      · rw [he] at ht
        cases ht
        exact ⟨hf, hfull, by rw [hp]⟩
    · exact .inr ⟨last, hlast, .inr ⟨hc, .inr ⟨n, s', h.release.took ht, by rw [hp]; rfl⟩⟩⟩

/-- **A step that was made.** -/
inductive Step (l : Lifetimes) (i : Nat) (c : Command) (s : Slots) : Instruction → Slots → Prop where
  | unread : l.lastRead? (.result i) = none →
      Step l i c s (s.instructionOf c (if c.replacesState then SlotRef.state.toByte else SlotRef.absent.toByte))
        (s.release i)
  | read {last n : Nat} {s' : Slots} : l.lastRead? (.result i) = some last → c.replacesState = false →
      Took (s.release i) n s' →
      Step l i c s (s.instructionOf c (SlotRef.slot (.ofNat n) c.call.outputIsDynamic).toByte) (s'.place i last n)

section
variable {planner : Nat} {cs : List Command} {l : Lifetimes} {s s' : Slots} {i : Nat} {c : Command} {ins : Instruction}

theorem reads_of_mem_sources (hc : cs[i]? = some c) {x : Source} (hx : x ∈ c.sources) : Reads cs x i :=
  reads_iff.2 ⟨c, hc, hx⟩

/-- What a command reads is known before it and has a last reader. -/
theorem known_and_read (hl : l.Exact cs) (hr : AllReadable planner 0 cs) (hc : cs[i]? = some c) :
    ∀ x ∈ c.sources, x.KnownAt i ∧ ∃ k, l.lastRead? x = some k := by
  intro x hx
  have hreads := reads_of_mem_sources hc hx
  obtain ⟨k, -, hlast⟩ := hreads.exists_last
  exact ⟨hr.knownAt_of_reads hreads, k, (hl.lastRead_iff x k).2 hlast⟩

theorem lt_of_lastRead? (hl : l.Exact cs) (hr : AllReadable planner 0 cs) {last : Nat}
    (h : l.lastRead? (.result i) = some last) : i < last := hr.lt_of_reads ((hl.lastRead_iff _ _).1 h).1

theorem assemble_ok (hl : l.Exact cs) (hr : AllReadable planner 0 cs) (hc : cs[i]? = some c) (h : Balanced l i i s)
    (ha : s.assemble l i c = .ok (ins, s')) : c.call.args.length ≤ maxOperands ∧ Step l i c s ins s' := by
  rcases assemble_cases h (known_and_read hl hr hc) with
    ⟨-, he⟩ | ⟨hlen, ⟨hnone, he⟩ | ⟨last, hlast, ⟨-, he⟩ | ⟨hrep, ⟨-, -, he⟩ | ⟨n, s₁, ht, he⟩⟩⟩⟩
  · rw [he] at ha; cases ha
  · rw [he] at ha
    obtain ⟨rfl, rfl⟩ := Prod.mk.inj (Except.ok.inj ha)
    exact ⟨hlen, .unread hnone⟩
  · rw [he] at ha; cases ha
  · rw [he] at ha; cases ha
  · rw [he] at ha
    obtain ⟨rfl, rfl⟩ := Prod.mk.inj (Except.ok.inj ha)
    exact ⟨hlen, .read hlast hrep ht⟩

theorem Step.of_unread (hs : Step l i c s ins s') (hnone : l.lastRead? (.result i) = none) :
    ins = s.instructionOf c (if c.replacesState then SlotRef.state.toByte else SlotRef.absent.toByte) ∧
      s' = s.release i := by
  cases hs with
  | unread _ => exact ⟨rfl, rfl⟩
  | read hlast _ _ => rw [hnone] at hlast; cases hlast

theorem Step.of_read (hs : Step l i c s ins s') {last : Nat} (hlast : l.lastRead? (.result i) = some last) :
    c.replacesState = false ∧ ∃ n s₁, Took (s.release i) n s₁ ∧ s' = s₁.place i last n ∧
      ins = s.instructionOf c (SlotRef.slot (.ofNat n) c.call.outputIsDynamic).toByte := by
  cases hs with
  | unread hnone => rw [hnone] at hlast; cases hlast
  | read hlast' hrep ht =>
    rw [hlast] at hlast'
    cases hlast'
    exact ⟨hrep, _, _, ht, rfl, rfl⟩

theorem Step.instruction_eq (hs : Step l i c s ins s') : ins = s.instructionOf c ins.result := by cases hs <;> rfl

/-- **A step keeps the slots in balance.** -/
theorem Step.balanced (hl : l.Exact cs) (hr : AllReadable planner 0 cs) (h : Balanced l i i s)
    (hs : Step l i c s ins s') : Balanced l (i + 1) (i + 1) s' := by
  cases hs with
  | unread hnone => exact h.release.skip hnone
  | read hlast _ ht => exact h.release.place ht hlast (lt_of_lastRead? hl hr hlast)

/-! ## All commands -/

/-- The run over some of the commands from position `i` on, whose first state is `s`. -/
theorem assembleAll_ok (hl : l.Exact cs) (hr : AllReadable planner 0 cs) :
    ∀ {rest : List Command} {i : Nat} {s s' : Slots} {inss : List Instruction}, rest <+: cs.drop i → Balanced l i i s →
      s.assembleAll l i rest = .ok (inss, s') →
      ∃ st : Nat → Slots, st i = s ∧ st (i + rest.length) = s' ∧ inss.length = rest.length ∧
        (∀ (j : Nat) (c : Command), rest[j]? = some c → c.call.args.length ≤ maxOperands ∧
          ∃ ins, inss[j]? = some ins ∧ Step l (i + j) c (st (i + j)) ins (st (i + j + 1))) ∧
        ∀ j ≤ rest.length, Balanced l (i + j) (i + j) (st (i + j))
  | [], i, s, s', inss, _, hb, h => by
    cases h
    refine ⟨fun _ => s, rfl, rfl, rfl, fun j c hj => (by cases hj), fun j hj => ?_⟩
    obtain rfl : j = 0 := Nat.le_zero.1 hj
    exact hb
  | c :: rest, i, s, s', inss, hd, hb, h => by
    obtain ⟨hc, hd'⟩ := getElem?_of_cons_isPrefix_drop hd
    unfold assembleAll at h
    cases ha : s.assemble l i c with
    | error e => rw [ha] at h; cases h
    | ok r =>
      obtain ⟨ins, s₁⟩ := r
      obtain ⟨hlen, hstep⟩ := assemble_ok hl hr hc hb ha
      rw [ha] at h
      cases hrest : s₁.assembleAll l (i + 1) rest with
      | error e => simp [hrest] at h
      | ok r' =>
        obtain ⟨inss', s₂⟩ := r'
        simp only [hrest, Except.ok.injEq, Prod.mk.injEq] at h
        obtain ⟨rfl, rfl⟩ := h
        obtain ⟨st, hst, hst', hlen', hsteps, hbal⟩ := assembleAll_ok hl hr hd' (hstep.balanced hl hr hb) hrest
        -- the state before the first command goes in front of the others
        let st₁ := fun k => if k = i then s else st k
        have hfirst : st₁ i = s := if_pos rfl
        have hlater : ∀ j, st₁ (i + (j + 1)) = st (i + 1 + j) := fun j => by
          simp only [st₁]
          rw [if_neg (by omega), show i + (j + 1) = i + 1 + j by omega]
        refine ⟨st₁, hfirst, ?_, by simp [hlen'], fun j d hj => ?_, fun j hj => ?_⟩
        · rw [List.length_cons, hlater, hst']
        · cases j with
          | zero =>
            cases hj
            refine ⟨hlen, ins, rfl, ?_⟩
            rw [Nat.add_zero, hfirst, show st₁ (i + 1) = s₁ from (hlater 0).trans hst]
            exact hstep
          | succ j =>
            have := hsteps j d hj
            rw [hlater, show i + (j + 1) + 1 = i + (j + 1 + 1) by omega, hlater]
            rwa [show i + (j + 1) = i + 1 + j by omega, show i + 1 + (j + 1) = i + 1 + j + 1 by omega]
        · cases j with
          | zero => rw [Nat.add_zero, hfirst]; exact hb
          | succ j =>
            have := hbal j (Nat.le_of_succ_le_succ hj)
            rwa [hlater, show i + (j + 1) = i + 1 + j by omega]

theorem Step.slot?_of_ne (h : Balanced l i i s) (hs : Step l i c s ins s') {x : Source} (hx : x ≠ .result i) :
    s'.slot? x = s.slot? x := by
  cases hs with
  | unread _ => exact slot?_release s i x
  | read _ _ ht => rw [slot?_place ht h.release.slot?_result, if_neg hx, slot?_release]

theorem Step.table_eq (hs : Step l i c s ins s') : s'.table = s.table ∨ s'.table = s.table ++ [[]] := by
  cases hs with
  | unread _ => exact .inl rfl
  | read _ _ ht =>
    rcases ht.table_eq with he | ⟨-, he, -⟩
    · exact .inl he
    · exact .inr he

end

end Slots

/-! ## A whole plan -/

open Slots (Balanced Step ofLiterals)

/-- **How a plan was made**: `st i` are the slots before the command at `i`, and every command made its step. -/
structure Planned (cs : List Command) (l : Lifetimes) (st : Nat → Slots) (prog : Program) : Prop where
  exact : l.Exact cs
  ordered : ∀ j k, Reads cs (.result j) k → j < k
  first : st 0 = ofLiterals l.literals
  length_eq : prog.instructions.length = cs.length
  step : ∀ (i : Nat) (c : Command), cs[i]? = some c → c.call.args.length ≤ maxOperands ∧
    ∃ ins, prog.instructions[i]? = some ins ∧ Step l i c (st i) ins (st (i + 1))
  balanced : ∀ i, i ≤ cs.length → Balanced l i i (st i)
  table_eq : (st cs.length).table = prog.state

theorem Lifetimes.Exact.nodup_literals {cs : List Command} {l : Lifetimes} (h : l.Exact cs) :
    (l.literals.map Prod.fst).Nodup := by
  rw [h.literals_eq]
  exact nodup_eraseDups _

/-- **An accepted plan was made step by step.** -/
theorem plan_ok {p : Planner} {prog : Program} (h : p.plan = .ok prog) :
    AllReadable p.id 0 p.commands ∧ ∃ l st, Planned p.commands l st prog := by
  unfold Planner.plan at h
  cases ha : Lifetimes.analyze p.id p.commands with
  | error e => rw [ha] at h; cases h
  | ok l =>
    simp only [ha, Lifetimes.compile, Slots.addLiterals_eq] at h
    obtain ⟨hr, hl⟩ := Lifetimes.analyze_ok ha
    refine ⟨hr, l, ?_⟩
    by_cases hlen : l.literals.length ≤ maxSlots
    · rw [if_pos hlen] at h
      cases hall : (ofLiterals l.literals).assembleAll l 0 p.commands with
      | error e => simp [hall] at h
      | ok r =>
        obtain ⟨inss, s'⟩ := r
        simp only [hall, Except.ok.injEq] at h
        subst h
        have hb := Balanced.ofLiterals hl.nodup_literals hlen
        obtain ⟨st, hst, hst', hlen', hstep, hbal⟩ := Slots.assembleAll_ok hl hr List.prefix_rfl hb hall
        simp only [Nat.zero_add] at hst' hstep hbal
        exact ⟨st, hl, fun j k => hr.lt_of_reads, hst, hlen', hstep, hbal, congrArg Slots.table hst'⟩
    · simp [if_neg hlen] at h

section
variable {cs : List Command} {l : Lifetimes} {st : Nat → Slots} {prog : Program}

/-- **A value that is known has the slot that it keeps to the end, or none.** -/
theorem Planned.slot?_eq (h : Planned cs l st prog) {x : Source} {i : Nat} (hx : x.KnownAt i) :
    ∀ {j : Nat}, i ≤ j → j ≤ cs.length → (st j).slot? x = (st i).slot? x
  | 0, hij, _ => by rw [Nat.le_zero.1 hij]
  | j + 1, hij, hj => by
    rcases Nat.lt_or_eq_of_le hij with hlt | rfl
    · have hc : cs[j]? = some (cs.get ⟨j, hj⟩) := List.getElem?_eq_getElem hj
      obtain ⟨-, ins, -, hs⟩ := h.step j _ hc
      have hne : x ≠ .result j := by
        rintro rfl
        exact absurd hx (Nat.not_lt_of_le (Nat.le_of_lt_succ hlt))
      rw [hs.slot?_of_ne (h.balanced j (Nat.le_of_lt hj)) hne]
      exact h.slot?_eq hx (Nat.le_of_lt_succ hlt) (Nat.le_of_lt hj)
    · rfl

/-- **The table a program starts with holds at every time the table so far, and is filled up with empty slots.** -/
theorem Planned.table_prefix (h : Planned cs l st prog) {i : Nat} : ∀ {j : Nat}, i ≤ j → j ≤ cs.length →
    ∃ d, (st j).table = (st i).table ++ List.replicate d []
  | 0, hij, _ => ⟨0, by rw [Nat.le_zero.1 hij]; simp⟩
  | j + 1, hij, hj => by
    rcases Nat.lt_or_eq_of_le hij with hlt | rfl
    · have hc : cs[j]? = some (cs.get ⟨j, hj⟩) := List.getElem?_eq_getElem hj
      obtain ⟨-, ins, -, hs⟩ := h.step j _ hc
      obtain ⟨d, hd⟩ := h.table_prefix (Nat.le_of_lt_succ hlt) (Nat.le_of_lt hj)
      rcases hs.table_eq with he | he
      · exact ⟨d, by rw [he, hd]⟩
      · exact ⟨d + 1, by rw [he, hd, List.append_assoc, List.replicate_succ']⟩
    · exact ⟨0, by simp⟩

end

/-! ## A small plan

The second sum reads the first one twice.  The literal `1` is read for the last time by the first sum, whose result takes
its slot. -/

def addFunction : Function := ⟨"add", [⟨"", .uint 256⟩, ⟨"", .uint 256⟩], [⟨"", .uint 256⟩]⟩

/-- The planner of `x = 1 + 2` and `x + x`. -/
def doubledSum : Planner where
  id := 0
  commands :=
    [⟨⟨Block.fill 20 0xEE, addFunction, [.literal (.uint 256) [1], .literal (.uint 256) [2]]⟩, false⟩,
      ⟨⟨Block.fill 20 0xEE, addFunction, [.result ⟨.uint 256, ⟨0, 0⟩⟩, .result ⟨.uint 256, ⟨0, 0⟩⟩]⟩, false⟩]

theorem plan_doubledSum :
    doubledSum.plan = .ok
      ⟨[⟨addFunction.selector, Instruction.operandBlock [0, 1], 0, Block.fill 20 0xEE⟩,
        ⟨addFunction.selector, Instruction.operandBlock [0, 0], 0xFF, Block.fill 20 0xEE⟩], [[1], [2]]⟩ := rfl

end CallPlan
