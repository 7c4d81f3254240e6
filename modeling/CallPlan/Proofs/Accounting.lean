import CallPlan.Proofs.Assembly
/-!
# No slot is lost

After any number of commands every slot of the table is either free or waits in the bucket of exactly one command, the last
that reads the value in it; and the slots that wait are those of the values that are still read (`Accounted`).  The balance
of the slots says so in the terms of the run; here it is read off at each command of a run that may still fail at a later one
(`assembleAll_accounted`).
-/
namespace CallPlan
namespace Slots

/-- **How the slots stand before the command at `i`**: each is free or in one bucket, the buckets hold what is known and still
read, each value behind its last reader, and no two such values share a slot. -/
structure Accounted (cs : List Command) (i : Nat) (s : Slots) : Prop where
  once : ∀ n, (s.free ++ s.used).count n = if n < s.table.length then 1 else 0
  due : ∀ k n, (k, n) ∈ s.expiring → i ≤ k
  held : ∀ k n, (k, n) ∈ s.expiring ↔ ∃ x, Needed cs i i x ∧ IsLastReader cs x k ∧ s.slot? x = some n
  placed : ∀ x, Needed cs i i x → ∃ n, s.slot? x = some n
  apart : ∀ x y n, Needed cs i i x → Needed cs i i y → s.slot? x = some n → s.slot? y = some n → x = y
  stored : ∀ bs n, s.slot? (.literal bs) = some n → s.table[n]? = some bs
  /-- Releasing at the command frees no slot that is free already, and loses none. -/
  released : ∀ n, ((s.release i).free ++ (s.release i).used).count n = if n < s.table.length then 1 else 0

section
variable {planner : Nat} {cs : List Command} {l : Lifetimes} {s s' : Slots} {i m : Nat} {c : Command} {ins : Instruction}

theorem Balanced.count_eq (h : Balanced l i m s) (n : Nat) :
    (s.free ++ s.used).count n = if n < s.table.length then 1 else 0 := by
  rw [h.partition.count_eq, List.nodup_range.count]
  simp

/-- **A slot holds a needed value behind its last reader.** -/
theorem held_iff_needed (hl : l.Exact cs) {x : Source} {k n : Nat} :
    Held l i i s x k n ↔ Needed cs i i x ∧ IsLastReader cs x k ∧ s.slot? x = some n := by
  unfold Held
  rw [hl.lastRead_iff]
  constructor
  · rintro ⟨hknown, hlast, hk, hn⟩
    exact ⟨needed_iff_last.2 ⟨hknown, k, hk, hlast⟩, hlast, hn⟩
  · rintro ⟨⟨hknown, k', hk', hreads⟩, hlast, hn⟩
    exact ⟨hknown, hlast, Nat.le_trans hk' (hlast.2 k' hreads), hn⟩

theorem Balanced.accounted (hl : l.Exact cs) (h : Balanced l i i s)
    (hstored : ∀ bs n, s.slot? (.literal bs) = some n → s.table[n]? = some bs) : Accounted cs i s where
  once := h.count_eq
  due k n hmem := by
    obtain ⟨x, hx⟩ := (h.mem_expiring k n).1 hmem
    exact hx.2.2.1
  held k n := by simp only [h.mem_expiring, held_iff_needed hl]
  placed x hx := by
    obtain ⟨hknown, k, -, hlast⟩ := needed_iff_last.1 hx
    exact h.placed x k hknown ((hl.lastRead_iff x k).2 hlast)
  apart x y n hx hy hn hn' := by
    obtain ⟨-, k, -, hlast⟩ := needed_iff_last.1 hx
    obtain ⟨-, k', -, hlast'⟩ := needed_iff_last.1 hy
    exact h.held_unique x y k k' n ((held_iff_needed hl).2 ⟨hx, hlast, hn⟩) ((held_iff_needed hl).2 ⟨hy, hlast', hn'⟩)
  stored := hstored
  released := h.release.count_eq

/-! ## Literals stay where they are -/

theorem stored_ofLiterals {lits : List (Bytes × Nat)} (hnd : (lits.map Prod.fst).Nodup) (bs : Bytes) (n : Nat)
    (h : (ofLiterals lits).slot? (.literal bs) = some n) : (ofLiterals lits).table[n]? = some bs := by
  obtain ⟨k, hk⟩ := (slot?_ofLiterals hnd).1 h
  simp [ofLiterals, hk]

theorem Step.stored (hb : Balanced l i i s) (hs : Step l i c s ins s')
    (h : ∀ bs n, s.slot? (.literal bs) = some n → s.table[n]? = some bs) (bs : Bytes) (n : Nat)
    (hn : s'.slot? (.literal bs) = some n) : s'.table[n]? = some bs := by
  have hold : s.table[n]? = some bs := by
    refine h bs n ?_
    rwa [← hs.slot?_of_ne hb (x := .literal bs) (by simp)]
  rcases hs.table_eq with he | he
  · rwa [he]
  · rw [he]
    exact getElem?_of_isPrefix (List.prefix_append _ _) hold

/-! ## Runs -/

/-- A run over two lists of commands is the run over the first and then, from where it ended, the run over the second. -/
theorem assembleAll_append (l : Lifetimes) : ∀ (as bs : List Command) (i : Nat) (s : Slots),
    s.assembleAll l i (as ++ bs) = (s.assembleAll l i as).bind fun r =>
      (r.2.assembleAll l (i + as.length) bs).map fun r' => (r.1 ++ r'.1, r'.2)
  | [], bs, i, s => by
    simp only [List.nil_append, assembleAll, Except.bind, List.length_nil, Nat.add_zero]
    cases s.assembleAll l i bs <;> rfl
  | c :: as, bs, i, s => by
    rw [List.cons_append, assembleAll, assembleAll]
    cases s.assemble l i c with
    | error e => rfl
    | ok r =>
      simp only [assembleAll_append l as bs (i + 1) r.2, List.length_cons, show i + (as.length + 1) = i + 1 + as.length by omega]
      cases r.2.assembleAll l (i + 1) as with
      | error e => rfl
      | ok r' =>
        simp only [Except.bind]
        cases r'.2.assembleAll l (i + 1 + as.length) bs <;> rfl

/-- **Every slot is accounted for at every command.**  Let the lifetimes of a list of commands be known and let its first `i`
commands be assembled.  Then the slots are accounted for before the command at `i`, and the run over all commands goes on from
there. -/
theorem assembleAll_accounted (planner : Nat) (cs : List Command) (l : Lifetimes) (ha : Lifetimes.analyze planner cs = .ok l)
    (s₀ : Slots) (h₀ : ({} : Slots).addLiterals l.literals = .ok s₀) (i : Nat) (hi : i ≤ cs.length)
    (inss : List Instruction) (s : Slots) (h : s₀.assembleAll l 0 (cs.take i) = .ok (inss, s)) :
    Accounted cs i s ∧ inss.length = i ∧
      s₀.assembleAll l 0 cs = (s.assembleAll l i (cs.drop i)).map fun r => (inss ++ r.1, r.2) := by
  obtain ⟨hr, hl⟩ := Lifetimes.analyze_ok ha
  rw [addLiterals_eq] at h₀
  split at h₀ <;> cases h₀
  rename_i hlen
  have hb := Balanced.ofLiterals hl.nodup_literals hlen
  have hlength : (cs.take i).length = i := by rw [List.length_take, Nat.min_eq_left hi]
  obtain ⟨st, hst, hst', hinss, hstep, hbal⟩ := assembleAll_ok hl hr (i := 0) (List.take_prefix i cs) hb h
  simp only [Nat.zero_add, hlength] at hst' hinss hstep hbal
  -- one step after the other leaves the literals where they were put
  have hstored : ∀ j, j ≤ i → ∀ bs n, (st j).slot? (.literal bs) = some n → (st j).table[n]? = some bs := by
    intro j
    induction j with
    | zero => exact fun _ => hst ▸ stored_ofLiterals hl.nodup_literals
    | succ j ih =>
      intro hj
      have hc := List.getElem?_eq_getElem (hlength.symm ▸ hj : j < (cs.take i).length)
      obtain ⟨-, ins, -, hs⟩ := hstep j _ hc
      exact hs.stored (hbal j (Nat.le_of_lt hj)) (ih (Nat.le_of_lt hj))
  refine ⟨hst' ▸ (hbal i (Nat.le_refl i)).accounted hl (hstored i (Nat.le_refl i)), hinss, ?_⟩
  rw [← List.take_append_drop i cs, assembleAll_append, List.take_append_drop, h, hlength]
  simp [Except.bind]

end

/-- A plan that is refused at its third command, which has more arguments than fit. -/
def crowdedSum : List Command :=
  doubledSum.commands ++ [⟨⟨Block.fill 20 0xEE, addFunction, List.replicate 8 .state⟩, false⟩]

theorem assembleAll_accounted_crowdedSum :
    ∃ l s₀ inss s, Lifetimes.analyze 0 crowdedSum = .ok l ∧ ({} : Slots).addLiterals l.literals = .ok s₀ ∧
      s₀.assembleAll l 0 (crowdedSum.take 1) = .ok (inss, s) ∧ s.free = [1] ∧ s.expiring = [(1, 0)] ∧
      Accounted crowdedSum 1 s ∧ s₀.assembleAll l 0 crowdedSum = .error (.operandOverflow 2 addFunction.signature 8) := by
  obtain ⟨haccounted, -, hrun⟩ := assembleAll_accounted 0 crowdedSum _ rfl _ rfl 1 (by decide) _ _ rfl
  exact ⟨_, _, _, _, rfl, rfl, rfl, rfl, rfl, haccounted, hrun⟩

end Slots
end CallPlan
