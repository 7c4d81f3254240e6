import CallPlan.Proofs.FirstFit
import CallPlan.Proofs.LiteralTable
import CallPlan.Proofs.Refusals
/-!
# Appending commands

Appended commands read more, and later, so a value can keep its slot longer and the two plans may differ from the first
instruction on.  What can be compared is who reads what: a value that is needed stays needed (`neededSet_subset`).  So what
stood in the way of a plan still does, and the table does not shrink (`plan_append`).
-/
namespace CallPlan

section
variable {planner : Nat} {cs cs' : List Command}

theorem Reads.of_isPrefix (h : cs <+: cs') {x : Source} {k : Nat} (hk : Reads cs x k) : Reads cs' x k := by
  obtain ⟨c, hc, hx⟩ := reads_iff.1 hk
  exact reads_iff.2 ⟨c, getElem?_of_isPrefix h hc, hx⟩

theorem AllReadable.of_isPrefix (h : cs <+: cs') (hr : AllReadable planner 0 cs') : AllReadable planner 0 cs :=
  fun i c hc => hr i c (getElem?_of_isPrefix h hc)

theorem literalsOf_isPrefix (h : cs <+: cs') : literalsOf cs <+: literalsOf cs' :=
  literalsOf_isPrefix_of_sources (h.flatMap Command.sources)

/-- **A value that is needed is needed when commands are appended.** -/
theorem neededSet_subset (h : cs <+: cs') (i m : Nat) : neededSet cs i m ⊆ neededSet cs' i m := by
  intro x hx
  obtain ⟨hknown, k, hm, hk⟩ := mem_neededSet.1 hx
  exact mem_neededSet.2 ⟨hknown, k, hm, hk.of_isPrefix h⟩

theorem liveCount_le (h : cs <+: cs') (c : Nat) : liveCount cs c ≤ liveCount cs' c :=
  Finset.card_le_card (neededSet_subset h (c + 1) (c + 1))

/-- **A command that cannot be assembled cannot be assembled when commands are appended.**  The error can name another
reader: a result that replaces the table may now be read later. -/
theorem CommandFault.of_isPrefix (h : cs <+: cs') {i : Nat} {c : Command} {e : PlanError} (hf : CommandFault cs i c e) :
    ∃ e', CommandFault cs' i c e' := by
  cases hf with
  | operands hlen => exact ⟨_, .operands hlen⟩
  | conflict hlen hrep hlast =>
    obtain ⟨k, -, hk⟩ := (hlast.1.of_isPrefix h).exists_last
    exact ⟨_, .conflict hlen hrep hk⟩
  | slots hlen hrep hk hcount =>
    exact ⟨_, .slots hlen hrep (hk.of_isPrefix h) (Nat.lt_of_lt_of_le hcount (liveCount_le h i))⟩

/-- **The commands in front of a plan have a plan.** -/
theorem exists_plan_of_isPrefix (h : cs <+: cs') {prog' : Program} (hp : (Planner.mk planner cs').plan = .ok prog') :
    ∃ prog, (Planner.mk planner cs).plan = .ok prog := by
  obtain ⟨hr', l, st, hplanned⟩ := plan_ok hp
  have hr : AllReadable planner 0 cs := hr'.of_isPrefix h
  cases he : (Planner.mk planner cs).plan with
  | ok prog => exact ⟨prog, rfl⟩
  | error e =>
    rcases AllReadable.plan_error (p := ⟨planner, cs⟩) hr he with ⟨hlits, -⟩ | ⟨i, c, hc, hf, -⟩
    · have hle := (literalsOf_isPrefix h).length_le
      have hle' := hplanned.length_literalsOf_le
      exact absurd hlits (Nat.not_lt_of_le (Nat.le_trans hle hle'))
    · obtain ⟨e', hf'⟩ := hf.of_isPrefix h
      exact absurd hf' (hplanned.not_commandFault (getElem?_of_isPrefix h hc))

theorem sup_liveCount_le (h : cs <+: cs') :
    (Finset.range cs.length).sup (liveCount cs) ≤ (Finset.range cs'.length).sup (liveCount cs') := by
  refine Finset.sup_le fun i hi => Nat.le_trans (liveCount_le h i) ?_
  exact Finset.le_sup (Finset.mem_range.2 (Nat.lt_of_lt_of_le (Finset.mem_range.1 hi) h.length_le))

end

/-- **Appending commands never helps.**  Commands that have no plan have none when others come behind them.  Where both have
one, the longer list has no fewer slots, and the literals at the start of its table begin with those of the shorter. -/
theorem plan_append (planner : Nat) (cs cs' : List Command) (h : cs <+: cs') :
    (∀ e, (Planner.mk planner cs).plan = .error e → ∃ e', (Planner.mk planner cs').plan = .error e') ∧
    ∀ prog prog', (Planner.mk planner cs).plan = .ok prog → (Planner.mk planner cs').plan = .ok prog' →
      prog.state.length ≤ prog'.state.length ∧
      (∃ d, prog.state = literalsOf cs ++ List.replicate d []) ∧
      (∃ d, prog'.state = literalsOf cs' ++ List.replicate d []) ∧
      literalsOf cs <+: literalsOf cs' := by
  refine ⟨fun e he => ?_, fun prog prog' hp hp' => ?_⟩
  · cases hp' : (Planner.mk planner cs').plan with
    | error e' => exact ⟨e', rfl⟩
    | ok prog' =>
      obtain ⟨prog, hp⟩ := exists_plan_of_isPrefix h hp'
      rw [he] at hp
      cases hp
  · obtain ⟨-, l, st, hp⟩ := plan_ok hp
    obtain ⟨-, l', st', hp'⟩ := plan_ok hp'
    have hlits := literalsOf_isPrefix h
    refine ⟨?_, hp.state_eq, hp'.state_eq, hlits⟩
    rw [hp.length_state, hp'.length_state]
    exact max_le_max hlits.length_le (sup_liveCount_le h)

/-- The second sum gives the result of the first a reader, and with it the slot of a literal. -/
theorem plan_append_doubledSum :
    ∃ prog prog' ins ins', (Planner.mk 0 (doubledSum.commands.take 1)).plan = .ok prog ∧ doubledSum.plan = .ok prog' ∧
      prog.instructions[0]? = some ins ∧ prog'.instructions[0]? = some ins' ∧ ins.result ≠ ins'.result ∧
      prog.state.length ≤ prog'.state.length ∧
      literalsOf (doubledSum.commands.take 1) <+: literalsOf doubledSum.commands := by
  have hplan : (Planner.mk 0 (doubledSum.commands.take 1)).plan = .ok
      ⟨[⟨addFunction.selector, Instruction.operandBlock [0, 1], 0xFF, Block.fill 20 0xEE⟩], [[1], [2]]⟩ := rfl
  obtain ⟨-, hboth⟩ := plan_append 0 (doubledSum.commands.take 1) doubledSum.commands (List.take_prefix 1 _)
  obtain ⟨hlen, -, -, hlits⟩ := hboth _ _ hplan plan_doubledSum
  exact ⟨_, _, _, _, hplan, plan_doubledSum, rfl, rfl, by decide, hlen, hlits⟩

end CallPlan
