import CallPlan.Proofs.Placement
import Mathlib.Data.Finset.Lattice.Fold
import Mathlib.Order.Bounds.Basic
import Mathlib.Order.Lattice.Nat
/-!
# Lowest slot, smallest table

The result of a command goes to the lowest slot in which no other value is kept that a later command reads, and the table is
no longer than the literals, or the values that are live after some command, make necessary (`plan_firstFit`).
-/
namespace CallPlan

open Slots (Balanced)

section
variable {cs : List Command} {l : Lifetimes} {st : Nat → Slots} {prog : Program}

theorem liveAfter_ne_result_iff {c : Nat} {x : Source} :
    LiveAfter cs c x ∧ x ≠ .result c ↔ Needed cs c (c + 1) x ∧ x ≠ .result c := by
  unfold LiveAfter Needed
  rw [Slots.knownAt_succ]
  tauto

/-- **The table grows exactly to the number of values that are live behind a command.** -/
theorem Planned.length_table_succ (h : Planned cs l st prog) {i : Nat} (hi : i < cs.length) :
    (st (i + 1)).table.length = max (st i).table.length (liveCount cs i) := by
  have hc : cs[i]? = some (cs.get ⟨i, hi⟩) := List.getElem?_eq_getElem hi
  have hbal := h.balanced (i + 1) hi
  have hcount : liveCount cs i = (st (i + 1)).used.length := hbal.card_needed h.exact
  have hlen := hbal.length_eq
  obtain ⟨-, ins, -, hs⟩ := h.step i _ hc
  rw [hcount]
  cases hlast : l.lastRead? (.result i) with
  | none =>
    have htable : (st (i + 1)).table = (st i).table := by rw [(hs.of_unread hlast).2]; rfl
    rw [htable] at hlen ⊢
    omega
  | some last =>
    obtain ⟨-, n, s₁, ht, hst, -⟩ := hs.of_read hlast
    rcases ht.table_eq with htable | ⟨-, htable, hfree⟩
    · have htable' : (st (i + 1)).table = (st i).table := by rw [hst]; exact htable
      rw [htable'] at hlen ⊢
      omega
    · -- a new slot is made only when every other one is in use
      have htable' : (st (i + 1)).table.length = (st i).table.length + 1 := by
        rw [hst]
        exact (congrArg List.length htable).trans (by simp [Slots.release])
      have hfree' : (st (i + 1)).free = [] := by rw [hst]; exact hfree
      rw [hfree', List.length_nil] at hlen
      omega

theorem Planned.length_table (h : Planned cs l st prog) : ∀ i, i ≤ cs.length →
    (st i).table.length = max (literalsOf cs).length ((Finset.range i).sup (liveCount cs))
  | 0, _ => by
    rw [h.first, ← h.exact.literals_eq]
    simp [Slots.ofLiterals]
  | i + 1, hi => by
    rw [h.length_table_succ hi, h.length_table i (Nat.le_of_lt hi), Finset.range_add_one, Finset.sup_insert, max_assoc]
    exact congrArg _ (max_comm _ _)

theorem Planned.length_state (h : Planned cs l st prog) :
    prog.state.length = max (literalsOf cs).length ((Finset.range cs.length).sup (liveCount cs)) := by
  rw [← h.table_eq]
  exact h.length_table _ (Nat.le_refl _)

theorem Planned.exists_keeps (h : Planned cs l st prog) {x : Source} {k : Nat} (hk : Reads cs x k) :
    ∃ n, prog.Keeps cs x n := by
  obtain ⟨last, n, hheld⟩ := h.held_of_reads hk
  exact ⟨n, h.keeps_iff.2 (h.slot?_held (Nat.le_of_lt hk.lt_length) hheld)⟩

end

/-- **Slots are given out first fit, and no table is larger than it has to be.**  Every value that is read is kept in one
slot.  A result that is read is kept in the lowest slot that keeps no other value live after its command.  The table has as
many slots as there are literals, or as there are values live after some command, whichever is more. -/
theorem plan_firstFit (p : Planner) (prog : Program) (h : p.plan = .ok prog) :
    (∀ (x : Source) (k : Nat), Reads p.commands x k → ∃! n, prog.Keeps p.commands x n) ∧
    (∀ (c : Nat) (ins : Instruction), prog.instructions[c]? = some ins → (∃ k, Reads p.commands (.result c) k) →
      ∃ n, (SlotRef.ofByte ins.result).index? = some n ∧
        IsLeast {n | ∀ x, LiveAfter p.commands c x → x ≠ .result c → ¬ prog.Keeps p.commands x n} n) ∧
    prog.state.length =
      max (literalsOf p.commands).length ((Finset.range p.commands.length).sup (liveCount p.commands)) := by
  obtain ⟨-, l, st, hp⟩ := plan_ok h
  refine ⟨fun x k hk => ?_, fun c ins hins ⟨k, hk⟩ => ?_, ?_⟩
  · obtain ⟨n, hn⟩ := hp.exists_keeps hk
    refine ⟨n, hn, fun n' hn' => ?_⟩
    rw [hp.keeps_iff] at hn hn'
    exact Option.some.inj (hn'.symm.trans hn)
  · have hc : c < p.commands.length := hp.length_eq ▸ (List.getElem?_eq_some_iff.1 hins).1
    obtain ⟨last, -, hlast⟩ := hk.exists_last
    obtain ⟨n, -, hlt, hr, hfree, hleast⟩ :=
      hp.result hins (List.getElem?_eq_getElem hc) ((hp.exact.lastRead_iff _ _).2 hlast)
    refine ⟨n, by rw [hr, hp.index?_ofByte hlt], fun x hx hne hkeeps => ?_, fun n' hn' => ?_⟩
    · exact hfree ((hp.mem_used_release_iff hc).2 ⟨x, (liveAfter_ne_result_iff.1 ⟨hx, hne⟩).1, hkeeps⟩)
    · by_contra hlt'
      obtain ⟨x, hx, hkeeps⟩ := (hp.mem_used_release_iff hc).1 (hleast n' (Nat.lt_of_not_le hlt'))
      have hne : x ≠ .result c := by
        rintro rfl
        exact absurd hx.1 (Nat.lt_irrefl c)
      exact hn' x (liveAfter_ne_result_iff.2 ⟨hx, hne⟩).1 hne hkeeps
  · rw [← hp.table_eq]
    exact hp.length_table _ (Nat.le_refl _)

theorem plan_firstFit_doubledSum :
    ∃ prog ins, doubledSum.plan = .ok prog ∧ prog.instructions[0]? = some ins ∧ Reads doubledSum.commands (.result 0) 1 ∧
      IsLeast {n | ∀ x, LiveAfter doubledSum.commands 0 x → x ≠ .result 0 → ¬ prog.Keeps doubledSum.commands x n} 0 ∧
      max (literalsOf doubledSum.commands).length
        ((Finset.range doubledSum.commands.length).sup (liveCount doubledSum.commands)) = 2 := by
  obtain ⟨-, hleast, hlen⟩ := plan_firstFit doubledSum _ plan_doubledSum
  have hread : Reads doubledSum.commands (.result 0) 1 := by decide
  obtain ⟨n, hn, hn'⟩ := hleast 0 _ rfl ⟨1, hread⟩
  obtain rfl : 0 = n := Option.some.inj hn
  exact ⟨_, _, plan_doubledSum, rfl, hread, hn', hlen.symm⟩

end CallPlan
