import CallPlan.Plan.Machine
import CallPlan.Proofs.Placement
/-!
# Programs make the calls of their commands

Running a program's instructions on its table and taking its commands one by one make the same calls, in every world
(`calls_eq_directCalls`).  What carries the proof is that at every instruction each value that is still read lies in its slot
(`Holds`): a result goes where nothing that is still read lies, so writing it spoils no other value.
-/
namespace CallPlan

open Slots (Balanced Step Held Took ofLiterals)

/-! ## Running one instruction more -/

/-- The table after instructions have run. -/
def tableAfter (w : World) (table : List Bytes) : List Instruction → Option (List Bytes)
  | []      => some table
  | i :: is =>
    match fetch table i.operands.bytes with
    | none      => none
    | some args =>
      match store table i.result (w ⟨i.address, i.selector, args⟩) with
      | none        => none
      | some table' => tableAfter w table' is

/-- **The table when the instruction at `i` is about to run.** -/
def Program.tableAt (w : World) (p : Program) (i : Nat) : Option (List Bytes) :=
  tableAfter w p.state (p.instructions.take i)

theorem tableAfter_concat {w : World} {ins : Instruction} {args : List Datum} {t' t'' : List Bytes} :
    ∀ {is : List Instruction} {t : List Bytes}, tableAfter w t is = some t' →
      fetch t' ins.operands.bytes = some args → store t' ins.result (w ⟨ins.address, ins.selector, args⟩) = some t'' →
      tableAfter w t (is ++ [ins]) = some t''
  | [], t, ht, hf, hs => by
    cases ht
    simp [tableAfter, hf, hs]
  | i :: is, t, ht, hf, hs => by
    rw [List.cons_append]
    unfold tableAfter at ht ⊢
    split at ht
    · cases ht
    · split at ht
      · cases ht
      · exact tableAfter_concat ht hf hs

theorem callsFrom_concat {w : World} {ins : Instruction} {args : List Datum} {t' t'' : List Bytes} :
    ∀ {is : List Instruction} {t : List Bytes} {calls : List CallMade}, tableAfter w t is = some t' →
      callsFrom w t is = some calls → fetch t' ins.operands.bytes = some args →
      store t' ins.result (w ⟨ins.address, ins.selector, args⟩) = some t'' →
      callsFrom w t (is ++ [ins]) = some (calls ++ [⟨ins.address, ins.selector, args⟩])
  | [], t, calls, ht, hc, hf, hs => by
    cases ht
    cases hc
    simp [callsFrom, hf, hs]
  | i :: is, t, calls, ht, hc, hf, hs => by
    rw [List.cons_append]
    unfold tableAfter at ht
    unfold callsFrom at hc ⊢
    split at ht
    · cases ht
    · split at ht
      · cases ht
      · rename_i args' hf' _ t₁ hs'
        simp only [hf', hs', Option.map_eq_some_iff] at hc ⊢
        obtain ⟨calls', hc', rfl⟩ := hc
        exact ⟨_, callsFrom_concat ht hc' hf hs, rfl⟩

theorem directCallsFrom_concat {w : World} {c : Command} {args : List Datum} :
    ∀ {cs : List Command} {answers : List Bytes} {calls : List CallMade}, directCallsFrom w answers cs = some calls →
      Value.data? (answers ++ calls.map w) c.call.args = some args →
      directCallsFrom w answers (cs ++ [c]) = some (calls ++ [⟨c.call.address, c.call.selector, args⟩])
  | [], answers, calls, hc, hd => by
    cases hc
    rw [List.map_nil, List.append_nil] at hd
    simp [directCallsFrom, hd]
  | d :: cs, answers, calls, hc, hd => by
    rw [List.cons_append]
    unfold directCallsFrom at hc ⊢
    split at hc
    · cases hc
    · rename_i args' hd'
      simp only [Option.map_eq_some_iff] at hc ⊢
      obtain ⟨calls', hc', rfl⟩ := hc
      refine ⟨_, directCallsFrom_concat hc' ?_, rfl⟩
      simpa using hd

/-! ## Values and slots -/

/-- The bytes that a value stands for, behind commands with these answers. -/
def Source.value? (answers : List Bytes) : Source → Option Bytes
  | .literal bs => some bs
  | .result j   => answers[j]?

theorem Value.datum?_eq (answers : List Bytes) (v : Value) :
    v.datum? answers = match v.source? with
      | none   => some .table
      | some x => (x.value? answers).map .bytes := by cases v <;> rfl

theorem Source.value?_append {answers more : List Bytes} {x : Source} {v : Bytes} (h : x.value? answers = some v) :
    x.value? (answers ++ more) = some v := by
  cases x with
  | literal bs => exact h
  | result j =>
    have h' : answers[j]? = some v := h
    exact getElem?_of_isPrefix (List.prefix_append answers more) h'

/-- **Every value that is still read lies in its slot.** -/
def Holds (l : Lifetimes) (i m : Nat) (s : Slots) (table answers : List Bytes) : Prop :=
  ∀ x last n, Held l i m s x last n → ∃ v, x.value? answers = some v ∧ table[n]? = some v

/-- **The operand bytes of a command fetch what its arguments stand for.** -/
theorem fetch_eq {s : Slots} {table answers : List Bytes} : ∀ {vs : List Value} (d : Nat),
    (∀ v ∈ vs, ∀ x, v.source? = some x → ∃ n b, s.slot? x = some n ∧ n < maxSlots ∧ x.value? answers = some b ∧
      table[n]? = some b) →
    ∃ args, Value.data? answers vs = some args ∧
      fetch table (vs.map s.byteOf ++ List.replicate d SlotRef.absent.toByte) = some args
  | [], d, _ => by
    refine ⟨[], rfl, ?_⟩
    cases d with
    | zero => rfl
    | succ d => simp [List.replicate_succ, fetch, SlotRef.ofByte_absent]
  | v :: vs, d, h => by
    obtain ⟨args, hargs, hfetch⟩ := fetch_eq d (fun u hu => h u (List.mem_cons_of_mem v hu))
    unfold Value.data?
    rw [List.map_cons, List.cons_append, fetch, Value.datum?_eq, Slots.byteOf]
    cases hx : v.source? with
    | none => exact ⟨.table :: args, by simp [hargs], by simp [SlotRef.ofByte_state, hfetch]⟩
    | some x =>
      obtain ⟨n, b, hn, hlt, hb, ht⟩ := h v List.mem_cons_self x hx
      refine ⟨.bytes b :: args, by simp [hb, hargs], ?_⟩
      simp [hn, SlotRef.ofByte_slot hlt, SlotRef.toNat_ofNat_slot hlt, ht, hfetch]

/-! ## One command -/

section
variable {cs : List Command} {l : Lifetimes} {st : Nat → Slots} {prog : Program} {i : Nat} {c : Command}
  {ins : Instruction} {table answers : List Bytes}

theorem Planned.fetch_operands (h : Planned cs l st prog) (hins : prog.instructions[i]? = some ins) (hc : cs[i]? = some c)
    (hh : Holds l i i (st i) table answers) :
    ∃ args, Value.data? answers c.call.args = some args ∧ fetch table ins.operands.bytes = some args := by
  have hheld : ∀ v ∈ c.call.args, ∀ x, v.source? = some x →
      ∃ n b, (st i).slot? x = some n ∧ n < maxSlots ∧ x.value? answers = some b ∧ table[n]? = some b := by
    intro v hv x hx
    have hr : Reads cs x i := reads_iff.2 ⟨c, hc, List.mem_filterMap.2 ⟨v, hv, hx⟩⟩
    obtain ⟨last, n, hheld⟩ := h.held_of_reads hr
    obtain ⟨b, hb, ht⟩ := hh x last n hheld
    have hbal := h.balanced i (Nat.le_of_lt hr.lt_length)
    exact ⟨n, b, hheld.2.2.2, Nat.lt_of_lt_of_le (hbal.lt_length_of_held hheld) hbal.length_le, hb, ht⟩
  obtain ⟨args, hargs, hfetch⟩ := fetch_eq (maxOperands - c.call.args.length) hheld
  exact ⟨args, hargs, by rw [h.operands_bytes hins hc, hfetch]⟩

theorem Planned.store_answer (h : Planned cs l st prog) (hins : prog.instructions[i]? = some ins) (hc : cs[i]? = some c)
    (hh : Holds l i i (st i) table answers) (ht : table.length = prog.state.length) (ha : answers.length = i)
    (answer : Bytes) :
    ∃ table', store table ins.result answer = some table' ∧ table'.length = prog.state.length ∧
      Holds l (i + 1) (i + 1) (st (i + 1)) table' (answers ++ [answer]) := by
  have hi := (List.getElem?_eq_some_iff.1 hc).1
  have hbal := h.balanced i (Nat.le_of_lt hi)
  obtain ⟨-, hs⟩ := h.step_at hins hc
  -- what was held before and is still read
  have hold : ∀ {x last n}, Held l i (i + 1) ((st i).release i) x last n →
      ∃ v, x.value? (answers ++ [answer]) = some v ∧ table[n]? = some v := by
    intro x last n hx
    obtain ⟨v, hv, htable⟩ := hh x last n (Slots.held_release.1 hx).1
    exact ⟨v, Source.value?_append hv, htable⟩
  cases hlast : l.lastRead? (.result i) with
  | none =>
    obtain ⟨hbyte, hst⟩ := hs.of_unread hlast
    refine ⟨table, ?_, ht, ?_⟩
    · rw [hbyte, Slots.instructionOf]
      cases c.replacesState
      · simp [store, SlotRef.ofByte_absent]
      · simp [store, SlotRef.ofByte_state]
    · rw [hst]
      exact fun x last n hx => hold ((Slots.held_skip hlast).1 hx)
  | some last =>
    obtain ⟨-, n, s₁, htook, hst, hbyte⟩ := hs.of_read hlast
    have hlt : i < last := h.ordered i last ((h.exact.lastRead_iff _ _).1 hlast).1
    have hheld := fun {x k a} => @Slots.held_place l i _ s₁ n last hbal.release htook hlast hlt x k a
    have hn : n < table.length := by
      rw [ht]
      refine Nat.lt_of_lt_of_le ?_ (h.length_table_le hi)
      exact (h.balanced (i + 1) hi).lt_length_of_held (hst ▸ hheld.2 (.inl ⟨rfl, rfl, rfl⟩))
    have hmax : n < maxSlots := Nat.lt_of_lt_of_le (ht ▸ hn) h.length_state_le
    refine ⟨table.set n answer, ?_, by rw [List.length_set, ht], ?_⟩
    · rw [hbyte, Slots.instructionOf]
      simp [store, SlotRef.ofByte_slot hmax, SlotRef.toNat_ofNat_slot hmax, hn]
    · rw [hst]
      intro x k a hx
      rcases hheld.1 hx with ⟨rfl, -, rfl⟩ | hx
      · exact ⟨answer, by simp [Source.value?, ← ha], by simp [hn]⟩
      · obtain ⟨v, hv, htable⟩ := hold hx
        -- the answer goes to a slot that holds nothing of this kind
        have hne : n ≠ a := by
          rintro rfl
          exact htook.not_mem_used (hbal.release.mem_used.2 ⟨x, k, hx⟩)
        exact ⟨v, hv, by rw [List.getElem?_set_ne hne, htable]⟩

/-! ## All commands -/

theorem Planned.holds_first (h : Planned cs l st prog) : Holds l 0 0 (st 0) prog.state [] := by
  intro x last n hx
  cases x with
  | result j => exact absurd hx.1 (Nat.not_lt_zero j)
  | literal bs =>
    have hplace := h.slot?_literal (Nat.zero_le _) hx.2.2.2
    obtain ⟨d, hd⟩ := h.state_eq
    exact ⟨bs, rfl, getElem?_of_isPrefix ⟨_, hd.symm⟩ hplace⟩

/-- **After any number of commands the calls made are those of the commands, and every value that is still read lies in
its slot.** -/
theorem Planned.simulation (h : Planned cs l st prog) (w : World) : ∀ i, i ≤ cs.length →
    ∃ table calls, prog.tableAt w i = some table ∧ table.length = prog.state.length ∧
      callsFrom w prog.state (prog.instructions.take i) = some calls ∧ directCallsFrom w [] (cs.take i) = some calls ∧
      calls.length = i ∧ Holds l i i (st i) table (calls.map w)
  | 0, _ => ⟨prog.state, [], rfl, rfl, rfl, rfl, rfl, h.holds_first⟩
  | i + 1, hi => by
    obtain ⟨table, calls, htable, hlen, hcalls, hdirect, hcount, hh⟩ := h.simulation w i (Nat.le_of_lt hi)
    have hc : cs[i]? = some (cs.get ⟨i, hi⟩) := List.getElem?_eq_getElem hi
    generalize cs.get ⟨i, hi⟩ = c at hc
    obtain ⟨ins, hins, haddr, hsel⟩ := h.instruction hc
    obtain ⟨args, hargs, hfetch⟩ := h.fetch_operands hins hc hh
    obtain ⟨table', hstore, hlen', hh'⟩ := h.store_answer hins hc hh hlen (by simp [hcount])
      (w ⟨ins.address, ins.selector, args⟩)
    have htake : prog.instructions.take (i + 1) = prog.instructions.take i ++ [ins] := by
      rw [List.take_add_one, hins]; rfl
    have htake' : cs.take (i + 1) = cs.take i ++ [c] := by rw [List.take_add_one, hc]; rfl
    refine ⟨table', calls ++ [⟨ins.address, ins.selector, args⟩], ?_, hlen', ?_, ?_, by simp [hcount], ?_⟩
    · rw [Program.tableAt, htake]
      exact tableAfter_concat htable hfetch hstore
    · rw [htake]
      exact callsFrom_concat htable hcalls hfetch hstore
    · rw [htake', haddr, hsel]
      exact directCallsFrom_concat hdirect (by simpa using hargs)
    · simpa using hh'

end

/-! ## Direct calls -/

theorem Value.data?_append {answers more : List Bytes} : ∀ {vs : List Value} {args : List Datum},
    Value.data? answers vs = some args → Value.data? (answers ++ more) vs = some args
  | [], _, h => h
  | v :: vs, args, h => by
    unfold Value.data? at h ⊢
    cases hd : v.datum? answers with
    | none => simp [hd] at h
    | some d =>
      simp only [hd, Option.map_eq_some_iff] at h
      obtain ⟨ds, hds, rfl⟩ := h
      have hd' : v.datum? (answers ++ more) = some d := by
        rw [Value.datum?_eq] at hd ⊢
        cases hx : v.source? with
        | none => simpa [hx] using hd
        | some x =>
          simp only [hx, Option.map_eq_some_iff] at hd ⊢
          obtain ⟨b, hb, rfl⟩ := hd
          exact ⟨b, Source.value?_append hb, rfl⟩
      simp [hd', Value.data?_append hds]

/-- **A direct call is handed what its command's arguments stand for, given the answers to all calls.** -/
theorem directCallsFrom_getElem? {w : World} : ∀ {cs : List Command} {answers : List Bytes} {calls : List CallMade},
    directCallsFrom w answers cs = some calls → ∀ {i : Nat} {c : Command}, cs[i]? = some c →
      ∃ call, calls[i]? = some call ∧ call.address = c.call.address ∧ call.selector = c.call.selector ∧
        Value.data? (answers ++ calls.map w) c.call.args = some call.args
  | [], _, _, _, _, _, hc => by cases hc
  | d :: cs, answers, calls, h, i, c, hc => by
    unfold directCallsFrom at h
    cases hd : Value.data? answers d.call.args with
    | none => simp [hd] at h
    | some args =>
      simp only [hd, Option.map_eq_some_iff] at h
      obtain ⟨calls', h', rfl⟩ := h
      cases i with
      | zero =>
        cases hc
        exact ⟨_, rfl, rfl, rfl, Value.data?_append hd⟩
      | succ i =>
        obtain ⟨call, hcall, ha, hs, hargs⟩ := directCallsFrom_getElem? h' (i := i) hc
        exact ⟨call, hcall, ha, hs, by simpa using hargs⟩

/-- **A program makes the calls of its commands.**  In every world there is one call for each command, in the order of the
commands, at its address and selector and with the arguments that it names, each result being the answer to the call of its
command.  No result goes to a slot while a value kept there has a reader to come. -/
theorem calls_eq_directCalls (w : World) (p : Planner) (prog : Program) (h : p.plan = .ok prog) :
    ∃ calls, prog.calls w = some calls ∧ directCalls w p.commands = some calls ∧
      calls.length = p.commands.length ∧
      (∀ (i : Nat) (c : Command), p.commands[i]? = some c →
        ∃ call, calls[i]? = some call ∧ call.address = c.call.address ∧ call.selector = c.call.selector ∧
          Value.data? (calls.map w) c.call.args = some call.args) ∧
      ∀ (i : Nat) (ins : Instruction) (n : Nat) (x : Source), prog.instructions[i]? = some ins →
        (SlotRef.ofByte ins.result).index? = some n → prog.Keeps p.commands x n → x.KnownAt i →
        ∀ k, Reads p.commands x k → k ≤ i := by
  obtain ⟨-, l, st, hp⟩ := plan_ok h
  obtain ⟨table, calls, -, -, hcalls, hdirect, hlen, -⟩ := hp.simulation w p.commands.length (Nat.le_refl _)
  rw [← hp.length_eq, List.take_length] at hcalls
  rw [List.take_length] at hdirect
  refine ⟨calls, hcalls, hdirect, hlen, fun i c hc => directCallsFrom_getElem? hdirect hc, ?_⟩
  intro i ins n x hins hn hkeeps hknown k hk
  by_contra hik
  have hi : i < p.commands.length := hp.length_eq ▸ (List.getElem?_eq_some_iff.1 hins).1
  obtain ⟨last, -, hfree⟩ := hp.result_of_index? hins hn
  -- the value is read behind `i`, so its slot is in use when the result is placed
  exact hfree ((hp.mem_used_release_iff hi).2 ⟨x, ⟨hknown, k, by omega, hk⟩, hkeeps⟩)

theorem calls_doubledSum :
    ∃ prog, doubledSum.plan = .ok prog ∧
      prog.calls (fun _ => [3]) = some
        [⟨Block.fill 20 0xEE, addFunction.selector, [.bytes [1], .bytes [2]]⟩,
          ⟨Block.fill 20 0xEE, addFunction.selector, [.bytes [3], .bytes [3]]⟩] := by
  obtain ⟨calls, hcalls, hdirect, -⟩ := calls_eq_directCalls (fun _ => [3]) doubledSum _ plan_doubledSum
  refine ⟨_, plan_doubledSum, hcalls.trans ?_⟩
  rw [← hdirect]
  rfl

end CallPlan
