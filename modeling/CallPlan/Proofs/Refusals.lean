import CallPlan.Proofs.Assembly
/-!
# Why a plan is refused

A plan is refused for the first argument that cannot be read, else for too many literals, else for the first command that
cannot be assembled; and if there is none of these, it is made (`plan_outcome`).  `CommandFault` says when a command cannot
be assembled in terms of who reads what, so that running out of slots is a count of live values and not a matter of how the
free slots came about.
-/
namespace CallPlan

open Slots (Balanced Step ofLiterals)

/-- **Why the command at `i` cannot be assembled.** -/
inductive CommandFault (cs : List Command) (i : Nat) (c : Command) : PlanError → Prop where
  | operands : maxOperands < c.call.args.length →
      CommandFault cs i c (.operandOverflow i c.call.signature c.call.args.length)
  | conflict {k : Nat} : c.call.args.length ≤ maxOperands → c.replacesState = true → IsLastReader cs (.result i) k →
      CommandFault cs i c (.returnReplaceConflict i k)
  | slots {k : Nat} : c.call.args.length ≤ maxOperands → c.replacesState = false → Reads cs (.result i) k →
      maxSlots < liveCount cs i → CommandFault cs i c (.slotOverflow (some i))

/-- **`e` is the fault of the first command that has one.** -/
def FirstCommandFault (cs : List Command) (e : PlanError) : Prop :=
  ∃ i c, cs[i]? = some c ∧ CommandFault cs i c e ∧
    ∀ i' c', i' < i → cs[i']? = some c' → ∀ e', ¬ CommandFault cs i' c' e'

/-! ## One command -/

section
variable {planner : Nat} {cs : List Command} {l : Lifetimes} {s s' : Slots} {i : Nat} {c : Command}

/-- **With every slot in use and one result more, there are more live values than slots.** -/
theorem lt_liveCount (hl : l.Exact cs) (h : Balanced l i (i + 1) s) (hfree : s.free = []) {last : Nat}
    (hlast : IsLastReader cs (.result i) last) (hlt : i < last) : s.table.length < liveCount cs i := by
  have hused : s.used.length = s.table.length := by
    rw [← h.length_eq, hfree, List.length_nil, Nat.zero_add]
  have hnew : Source.result i ∉ neededSet cs i (i + 1) := fun hm => absurd (mem_neededSet.1 hm).1 (Nat.lt_irrefl i)
  have hsub : insert (.result i) (neededSet cs i (i + 1)) ⊆ neededSet cs (i + 1) (i + 1) := by
    intro x hx
    rw [mem_neededSet]
    rcases Finset.mem_insert.1 hx with rfl | hx
    · exact ⟨Nat.lt_succ_self i, last, hlt, hlast.1⟩
    · exact ⟨Slots.knownAt_succ.2 (.inr (mem_neededSet.1 hx).1), (mem_neededSet.1 hx).2⟩
  have hcard := Finset.card_le_card hsub
  rw [Finset.card_insert_of_notMem hnew, h.card_needed hl, hused] at hcard
  exact hcard

theorem commandFault_of_error (hl : l.Exact cs) (hr : AllReadable planner 0 cs) (hc : cs[i]? = some c)
    (h : Balanced l i i s) {e : PlanError} (ha : s.assemble l i c = .error e) : CommandFault cs i c e := by
  rcases Slots.assemble_cases h (Slots.known_and_read hl hr hc) with
    ⟨hlen, he⟩ | ⟨hlen, ⟨-, he⟩ | ⟨last, hlast, ⟨hrep, he⟩ | ⟨hrep, ⟨hfree, hfull, he⟩ | ⟨n, s₁, -, he⟩⟩⟩⟩
  · rw [he] at ha
    cases ha
    exact .operands hlen
  · rw [he] at ha
    cases ha
  · rw [he] at ha
    cases ha
    exact .conflict hlen hrep ((hl.lastRead_iff _ _).1 hlast)
  · rw [he] at ha
    cases ha
    have hlast' := (hl.lastRead_iff _ _).1 hlast
    have hcount := lt_liveCount hl h.release hfree hlast' (Slots.lt_of_lastRead? hl hr hlast)
    exact .slots hlen hrep hlast'.1 (Nat.lt_of_le_of_lt hfull hcount)
  · rw [he] at ha
    cases ha

/-- **A step that was made had no fault.** -/
theorem Slots.Step.not_commandFault (hl : l.Exact cs) {ins : Instruction} (hlen : c.call.args.length ≤ maxOperands)
    (hs : Step l i c s ins s') (hb : Balanced l (i + 1) (i + 1) s') {e : PlanError} : ¬ CommandFault cs i c e := by
  intro hf
  cases hf with
  | operands hlen' => exact absurd hlen' (Nat.not_lt_of_le hlen)
  | conflict _ hrep hlast =>
    obtain ⟨hrep', -⟩ := hs.of_read ((hl.lastRead_iff _ _).2 hlast)
    rw [hrep] at hrep'
    cases hrep'
  | slots _ _ _ hcount =>
    -- what is live after the command has its slots, and the table has no more than can be named
    have hused : liveCount cs i = s'.used.length := hb.card_needed hl
    have := hb.length_eq
    have := hb.length_le
    omega

/-! ## All commands -/

theorem assembleAll_error (hl : l.Exact cs) (hr : AllReadable planner 0 cs) :
    ∀ {rest : List Command} {i : Nat} {s : Slots} {e : PlanError}, cs.drop i = rest → Balanced l i i s →
      s.assembleAll l i rest = .error e →
      ∃ j c, i ≤ j ∧ cs[j]? = some c ∧ CommandFault cs j c e ∧
        ∀ j' c', i ≤ j' → j' < j → cs[j']? = some c' → ∀ e', ¬ CommandFault cs j' c' e'
  | [], i, s, e, _, _, h => by cases h
  | c :: rest, i, s, e, hd, hb, h => by
    obtain ⟨hc, hd'⟩ := getElem?_of_drop_eq_cons hd
    unfold Slots.assembleAll at h
    cases ha : s.assemble l i c with
    | error e' =>
      rw [ha] at h
      cases h
      exact ⟨i, c, Nat.le_refl i, hc, commandFault_of_error hl hr hc hb ha, fun j' c' hi hj => by omega⟩
    | ok r =>
      obtain ⟨ins, s₁⟩ := r
      obtain ⟨hlen, hstep⟩ := Slots.assemble_ok hl hr hc hb ha
      have hb' := hstep.balanced hl hr hb
      have herr : s₁.assembleAll l (i + 1) rest = .error e := by
        rw [ha] at h
        cases hrest : s₁.assembleAll l (i + 1) rest with
        | error e' => simpa [hrest] using h
        | ok r => simp [hrest] at h
      obtain ⟨j, d, hij, hj, hf, hlt⟩ := assembleAll_error hl hr hd' hb' herr
      refine ⟨j, d, Nat.le_of_lt hij, hj, hf, fun j' c' hi hj' hc' e' => ?_⟩
      rcases Nat.lt_or_eq_of_le hi with hlt' | rfl
      · exact hlt j' c' hlt' hj' hc' e'
      · rw [hc] at hc'
        cases hc'
        exact hstep.not_commandFault hl hlen hb'

end

theorem Planned.not_commandFault {cs : List Command} {l : Lifetimes} {st : Nat → Slots} {prog : Program}
    (h : Planned cs l st prog) {i : Nat} {c : Command} (hc : cs[i]? = some c) {e : PlanError} :
    ¬ CommandFault cs i c e := by
  obtain ⟨hlen, ins, -, hs⟩ := h.step i c hc
  exact hs.not_commandFault h.exact hlen (h.balanced (i + 1) (List.getElem?_eq_some_iff.1 hc).1)

/-! ## A whole plan -/

theorem CommandFault.ne_corrupted {cs : List Command} {i : Nat} {c : Command} {e : PlanError} (h : CommandFault cs i c e)
    (f : ProgramFault) : e ≠ .corrupted f := by cases h <;> exact PlanError.noConfusion

theorem FirstFault.ne_corrupted {planner : Nat} {cs : List Command} {e : PlanError} (h : FirstFault planner cs e)
    (f : ProgramFault) : e ≠ .corrupted f := by
  rintro rfl
  obtain ⟨i, k, v, -, hf, -⟩ := h
  cases v with
  | literal ty bs => cases hf
  | state => cases hf
  | result hd =>
    simp only [Value.fault?] at hf
    split at hf
    · cases hf
    · split at hf <;> cases hf

/-- **A plan is refused for one of three reasons.** -/
theorem plan_error {p : Planner} {e : PlanError} (h : p.plan = .error e) :
    FirstFault p.id p.commands e ∨
      AllReadable p.id 0 p.commands ∧
        (maxSlots < (literalsOf p.commands).length ∧ e = .slotOverflow none ∨
          (literalsOf p.commands).length ≤ maxSlots ∧ FirstCommandFault p.commands e) := by
  unfold Planner.plan at h
  cases ha : Lifetimes.analyze p.id p.commands with
  | error e' =>
    rw [ha] at h
    cases h
    exact .inl (Lifetimes.analyze_error ha)
  | ok l =>
    simp only [ha, Lifetimes.compile, Slots.addLiterals_eq] at h
    obtain ⟨hr, hl⟩ := Lifetimes.analyze_ok ha
    have hlits : l.literals.length = (literalsOf p.commands).length := by rw [← hl.literals_eq, List.length_map]
    refine .inr ⟨hr, ?_⟩
    by_cases hlen : l.literals.length ≤ maxSlots
    · rw [if_pos hlen] at h
      have herr : (ofLiterals l.literals).assembleAll l 0 p.commands = .error e := by
        cases hall : (ofLiterals l.literals).assembleAll l 0 p.commands with
        | error e' => simpa [hall] using h
        | ok r => simp [hall] at h
      obtain ⟨i, c, -, hc, hf, hlt⟩ :=
        assembleAll_error hl hr List.drop_zero (Balanced.ofLiterals hl.nodup_literals hlen) herr
      exact .inr ⟨hlits ▸ hlen, i, c, hc, hf, fun i' c' => hlt i' c' (Nat.zero_le i')⟩
    · rw [if_neg hlen] at h
      cases h
      exact .inl ⟨hlits ▸ Nat.lt_of_not_le hlen, rfl⟩

/-- **A plan whose arguments can all be read is refused for a command or for its literals, never for an argument.** -/
theorem AllReadable.plan_error {p : Planner} {e : PlanError} (hr : AllReadable p.id 0 p.commands) (h : p.plan = .error e) :
    (maxSlots < (literalsOf p.commands).length ∧ e = .slotOverflow none) ∨ FirstCommandFault p.commands e := by
  rcases CallPlan.plan_error h with hf | ⟨-, hlits | ⟨-, hf⟩⟩
  · exact absurd hr hf.not_allReadable
  · exact .inl hlits
  · exact .inr hf

theorem Planned.length_literalsOf_le {cs : List Command} {l : Lifetimes} {st : Nat → Slots} {prog : Program}
    (h : Planned cs l st prog) : (literalsOf cs).length ≤ maxSlots := by
  have := (h.balanced 0 (Nat.zero_le _)).length_le
  rwa [h.first, ofLiterals, List.length_map, ← List.length_map Prod.fst, h.exact.literals_eq] at this

/-- **What becomes of a plan.**  It is refused for the first argument that cannot be read.  If all can be read, it is refused
for more literals than there are slots; else for the first command that has too many arguments, replaces the table though its
result is read, or has a result that is read where more values than slots are live; and else it is made.  It is never refused
as corrupted. -/
theorem plan_outcome (p : Planner) :
    (¬ AllReadable p.id 0 p.commands → ∃ e, FirstFault p.id p.commands e ∧ p.plan = .error e) ∧
    (AllReadable p.id 0 p.commands → maxSlots < (literalsOf p.commands).length →
      p.plan = .error (.slotOverflow none)) ∧
    (AllReadable p.id 0 p.commands → (literalsOf p.commands).length ≤ maxSlots →
      (∃ i c e, p.commands[i]? = some c ∧ CommandFault p.commands i c e) →
      ∃ e, FirstCommandFault p.commands e ∧ p.plan = .error e) ∧
    (AllReadable p.id 0 p.commands → (literalsOf p.commands).length ≤ maxSlots →
      (∀ i c e, p.commands[i]? = some c → ¬ CommandFault p.commands i c e) → ∃ prog, p.plan = .ok prog) ∧
    ∀ f, p.plan ≠ .error (.corrupted f) := by
  cases hp : p.plan with
  | ok prog =>
    obtain ⟨hr, l, st, hplanned⟩ := plan_ok hp
    refine ⟨fun hn => absurd hr hn, fun _ hlt => ?_, fun _ _ ⟨i, c, e, hc, hf⟩ => ?_, fun _ _ _ => ⟨prog, rfl⟩,
      fun f hf => ?_⟩
    · exact absurd hlt (Nat.not_lt_of_le hplanned.length_literalsOf_le)
    · exact absurd hf (hplanned.not_commandFault hc)
    · cases hf
  | error e =>
    rcases plan_error hp with hf | ⟨hr, ⟨hlt, rfl⟩ | ⟨hle, hf⟩⟩
    · have hn := hf.not_allReadable
      refine ⟨fun _ => ⟨e, hf, rfl⟩, fun hr => absurd hr hn, fun hr => absurd hr hn, fun hr => absurd hr hn, fun f he => ?_⟩
      exact hf.ne_corrupted f (Except.error.inj he)
    · refine ⟨fun hn => absurd hr hn, fun _ _ => rfl, fun _ hle => ?_, fun _ hle => ?_, fun f he => ?_⟩
      · exact absurd hlt (Nat.not_lt_of_le hle)
      · exact absurd hlt (Nat.not_lt_of_le hle)
      · cases he
    · obtain ⟨i, c, hc, hcf, -⟩ := id hf
      refine ⟨fun hn => absurd hr hn, fun _ hlt => ?_, fun _ _ _ => ⟨e, hf, rfl⟩, fun _ _ hnone => ?_, fun f he => ?_⟩
      · exact absurd hlt (Nat.not_lt_of_le hle)
      · exact absurd hcf (hnone i c e hc)
      · exact hcf.ne_corrupted f (Except.error.inj he)

end CallPlan
