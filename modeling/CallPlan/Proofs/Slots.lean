import CallPlan.Plan.Slots
import CallPlan.Proofs.Lifetimes
import Mathlib.Data.List.Perm.Basic
import Mathlib.Data.Finset.Card
/-!
# Slots in balance

While a plan is made, every slot of the table is free or waits for the last reader of exactly one value (`Slots.Balanced`).
The invariant has two positions, as `Needed` has: the values known before the command at `i`, and the readers from `m` on.
Reading the operands of the command at `i` needs it at `i` and `i`; releasing moves the second position to `i + 1`, and
giving the result its place moves the first (`Balanced.release`, `Balanced.place`).
-/
namespace CallPlan

/-! ## Ascending lists -/

theorem mem_insertAscending {n a : Nat} : ∀ {l : List Nat}, a ∈ insertAscending n l ↔ a = n ∨ a ∈ l
  | [] => by simp [insertAscending]
  | m :: l => by
    unfold insertAscending
    split
    · exact List.mem_cons
    · split
      · rename_i h
        simp [h]
      · rw [List.mem_cons, List.mem_cons, mem_insertAscending]
        exact or_left_comm

theorem pairwise_insertAscending {n : Nat} : ∀ {l : List Nat}, l.Pairwise (· < ·) →
    (insertAscending n l).Pairwise (· < ·)
  | [], _ => List.pairwise_singleton _ _
  | m :: l, h => by
    obtain ⟨hm, hl⟩ := List.pairwise_cons.1 h
    unfold insertAscending
    split
    · rename_i hnm
      refine List.pairwise_cons.2 ⟨fun a ha => ?_, h⟩
      rcases List.mem_cons.1 ha with rfl | ha
      · exact hnm
      · exact Nat.lt_trans hnm (hm a ha)
    · rename_i hnm
      split
      · exact h
      · refine List.pairwise_cons.2 ⟨fun a ha => ?_, pairwise_insertAscending hl⟩
        rcases mem_insertAscending.1 ha with rfl | ha
        · omega
        · exact hm a ha

theorem insertAscending_perm {n : Nat} : ∀ {l : List Nat}, n ∉ l → (insertAscending n l).Perm (n :: l)
  | [], _ => .refl _
  | m :: l, h => by
    obtain ⟨hnm, hl⟩ := not_or.1 (fun hn => h (List.mem_cons.2 hn))
    unfold insertAscending
    rw [if_neg hnm]
    split
    · exact .refl _
    · exact ((insertAscending_perm hl).cons m).trans (.swap n m l)

theorem pairwise_foldl_insertAscending : ∀ (ns : List Nat) {l : List Nat}, l.Pairwise (· < ·) →
    (ns.foldl (fun l n => insertAscending n l) l).Pairwise (· < ·)
  | [], _, h => h
  | _ :: ns, _, h => pairwise_foldl_insertAscending ns (pairwise_insertAscending h)

theorem foldl_insertAscending_perm : ∀ (ns : List Nat) {l : List Nat}, (ns ++ l).Nodup →
    (ns.foldl (fun l n => insertAscending n l) l).Perm (ns ++ l)
  | [], l, _ => .refl l
  | n :: ns, l, h => by
    obtain ⟨hn, hnd⟩ := List.nodup_cons.1 h
    have hp : (ns ++ insertAscending n l).Perm (n :: ns ++ l) :=
      ((insertAscending_perm fun hm => hn (List.mem_append_right ns hm)).append_left ns).trans List.perm_middle
    exact (foldl_insertAscending_perm ns (hp.nodup_iff.2 h)).trans hp

namespace Slots

/-- The slot of a value. -/
def slot? (s : Slots) : Source → Option Nat
  | .literal bs => s.literalSlots.lookup bs
  | .result j   => s.resultSlots.lookup j

/-- The slots in use. -/
def used (s : Slots) : List Nat := s.expiring.map Prod.snd

/-- **Slot `n` holds a value known before the command at `i`, whose last reader `k` is at or behind `m`.** -/
def Held (l : Lifetimes) (i m : Nat) (s : Slots) (x : Source) (k n : Nat) : Prop :=
  x.KnownAt i ∧ l.lastRead? x = some k ∧ m ≤ k ∧ s.slot? x = some n

/-- **Every slot is free or holds one value that is needed.** -/
structure Balanced (l : Lifetimes) (i m : Nat) (s : Slots) : Prop where
  free_ascending : s.free.Pairwise (· < ·)
  partition : (s.free ++ s.used).Perm (List.range s.table.length)
  length_le : s.table.length ≤ maxSlots
  mem_expiring : ∀ k n, (k, n) ∈ s.expiring ↔ ∃ x, Held l i m s x k n
  held_unique : ∀ x y k k' n, Held l i m s x k n → Held l i m s y k' n → x = y
  placed : ∀ x k, x.KnownAt i → l.lastRead? x = some k → ∃ n, s.slot? x = some n
  known : ∀ x n, s.slot? x = some n → x.KnownAt i

theorem slotOf?_eq (s : Slots) (v : Value) : s.slotOf? v = v.source?.bind s.slot? := by cases v <;> rfl

section
variable {l : Lifetimes} {i m : Nat} {s s' : Slots}

theorem Balanced.nodup (h : Balanced l i m s) : (s.free ++ s.used).Nodup :=
  h.partition.nodup_iff.2 List.nodup_range

theorem Balanced.lt_length_iff (h : Balanced l i m s) {n : Nat} : n < s.table.length ↔ n ∈ s.free ∨ n ∈ s.used := by
  rw [← List.mem_range, ← h.partition.mem_iff, List.mem_append]

theorem Balanced.length_eq (h : Balanced l i m s) : s.free.length + s.used.length = s.table.length := by
  rw [← List.length_append, h.partition.length_eq, List.length_range]

theorem Balanced.mem_used (h : Balanced l i m s) {n : Nat} : n ∈ s.used ↔ ∃ x k, Held l i m s x k n := by
  constructor
  · intro hn
    obtain ⟨⟨k, n'⟩, he, rfl⟩ := List.mem_map.1 hn
    obtain ⟨x, hx⟩ := (h.mem_expiring k n').1 he
    exact ⟨x, k, hx⟩
  · rintro ⟨x, k, hx⟩
    exact List.mem_map.2 ⟨(k, n), (h.mem_expiring k n).2 ⟨x, hx⟩, rfl⟩

theorem Balanced.lt_length_of_held (h : Balanced l i m s) {x : Source} {k n : Nat} (hx : Held l i m s x k n) :
    n < s.table.length := h.lt_length_iff.2 (.inr (h.mem_used.2 ⟨x, k, hx⟩))

/-- **There are as many slots in use as values needed.** -/
theorem Balanced.card_needed (h : Balanced l i m s) {cs : List Command} (hl : l.Exact cs) :
    (neededSet cs i m).card = s.used.length := by
  have hnd : s.used.Nodup := (List.nodup_append.1 h.nodup).2.1
  rw [← List.toFinset_card_of_nodup hnd]
  -- each value goes to its slot
  refine Finset.card_bij (fun x _ => (s.slot? x).getD 0) (fun x hx => ?_) (fun x hx y hy hxy => ?_) (fun n hn => ?_)
  · obtain ⟨hk, k, hm, hlast⟩ := needed_iff_last.1 (mem_neededSet.1 hx)
    obtain ⟨n, hn⟩ := h.placed x k hk ((hl.lastRead_iff x k).2 hlast)
    rw [List.mem_toFinset, h.mem_used, hn]
    exact ⟨x, k, hk, (hl.lastRead_iff x k).2 hlast, hm, hn⟩
  · obtain ⟨hk, k, hm, hlast⟩ := needed_iff_last.1 (mem_neededSet.1 hx)
    obtain ⟨hk', k', hm', hlast'⟩ := needed_iff_last.1 (mem_neededSet.1 hy)
    obtain ⟨n, hn⟩ := h.placed x k hk ((hl.lastRead_iff x k).2 hlast)
    obtain ⟨n', hn'⟩ := h.placed y k' hk' ((hl.lastRead_iff y k').2 hlast')
    have hnn : n = n' := by simpa [hn, hn'] using hxy
    subst hnn
    exact h.held_unique x y k k' n ⟨hk, (hl.lastRead_iff x k).2 hlast, hm, hn⟩
      ⟨hk', (hl.lastRead_iff y k').2 hlast', hm', hn'⟩
  · obtain ⟨x, k, hk, hlast, hm, hn⟩ := h.mem_used.1 (List.mem_toFinset.1 hn)
    exact ⟨x, mem_neededSet.2 (needed_iff_last.2 ⟨hk, k, hm, (hl.lastRead_iff x k).1 hlast⟩), by simp [hn]⟩

/-! ## Releasing -/

@[simp] theorem slot?_release (s : Slots) (i : Nat) (x : Source) : (s.release i).slot? x = s.slot? x := by cases x <;> rfl

theorem held_release {x : Source} {k n : Nat} :
    Held l i (m + 1) (s.release m) x k n ↔ Held l i m s x k n ∧ k ≠ m := by
  unfold Held
  rw [slot?_release]
  constructor
  · rintro ⟨hk, hlast, hm, hn⟩
    exact ⟨⟨hk, hlast, by omega, hn⟩, by omega⟩
  · rintro ⟨⟨hk, hlast, hm, hn⟩, hne⟩
    exact ⟨hk, hlast, by omega, hn⟩

/-- **Releasing at a command frees exactly the slots whose last reader it is.** -/
theorem Balanced.release (h : Balanced l i m s) : Balanced l i (m + 1) (s.release m) := by
  have hsplit : ((s.expiring.filter (·.1 = m)).map (·.2) ++ (s.expiring.filter (·.1 ≠ m)).map (·.2)).Perm s.used := by
    rw [← List.map_append]
    refine List.Perm.map _ ?_
    have := List.filter_append_perm (fun e : Nat × Nat => decide (e.1 = m)) s.expiring
    simpa only [decide_not, ne_eq] using this
  have hall : ((s.expiring.filter (·.1 = m)).map (·.2) ++ s.free ++ (s.expiring.filter (·.1 ≠ m)).map (·.2)).Perm
      (s.free ++ s.used) := by
    refine (List.Perm.append_right _ List.perm_append_comm).trans ?_
    rw [List.append_assoc]
    exact hsplit.append_left s.free
  have hnd := (List.nodup_append.1 (hall.nodup_iff.2 h.nodup)).1
  refine ⟨pairwise_foldl_insertAscending _ h.free_ascending, ?_, h.length_le, fun k n => ?_, ?_, ?_, ?_⟩
  · exact ((foldl_insertAscending_perm _ hnd).append_right _).trans (hall.trans h.partition)
  · have hmem : (k, n) ∈ (s.release m).expiring ↔ (k, n) ∈ s.expiring ∧ k ≠ m := by simp [Slots.release]
    rw [hmem, h.mem_expiring]
    simp only [held_release, exists_and_right]
  · exact fun x y k k' n hx hy => h.held_unique x y k k' n (held_release.1 hx).1 (held_release.1 hy).1
  · exact fun x k hk hlast => by simpa using h.placed x k hk hlast
  · exact fun x n hn => h.known x n (by simpa using hn)

/-! ## Giving a result its place -/

theorem take_cases (s : Slots) (i : Nat) :
    (∃ n rest, s.free = n :: rest ∧ s.take i = .ok (n, { s with free := rest })) ∨
      (s.free = [] ∧ s.table.length < maxSlots ∧
        s.take i = .ok (s.table.length, { s with table := s.table ++ [[]] })) ∨
      (s.free = [] ∧ maxSlots ≤ s.table.length ∧ s.take i = .error (.slotOverflow (some i))) := by
  unfold take
  cases hf : s.free with
  | cons n rest => exact .inl ⟨n, rest, rfl, rfl⟩
  | nil =>
    by_cases hlt : s.table.length < maxSlots
    · exact .inr (.inl ⟨rfl, hlt, by simp [grow, hlt, hf]⟩)
    · exact .inr (.inr ⟨rfl, Nat.le_of_not_lt hlt, by simp [grow, hlt]⟩)

/-- **Slot `n` was taken**: the lowest that is not in use, and the table grew only when all its slots were in use. -/
structure Took (s : Slots) (n : Nat) (s' : Slots) : Prop where
  literalSlots_eq : s'.literalSlots = s.literalSlots
  resultSlots_eq : s'.resultSlots = s.resultSlots
  expiring_eq : s'.expiring = s.expiring
  free_ascending : s'.free.Pairwise (· < ·)
  partition : (s'.free ++ n :: s.used).Perm (List.range s'.table.length)
  length_le : s'.table.length ≤ maxSlots
  least : ∀ n' < n, n' ∈ s.used
  table_eq : s'.table = s.table ∨ s.free = [] ∧ s'.table = s.table ++ [[]] ∧ s'.free = []

theorem Took.not_mem_used {n : Nat} (h : Took s n s') : n ∉ s.used := by
  have hnd := h.partition.nodup_iff.2 List.nodup_range
  exact (List.nodup_cons.1 (List.nodup_append.1 hnd).2.1).1

theorem Balanced.took (h : Balanced l i m s) {j n : Nat} (ht : s.take j = .ok (n, s')) : Took s n s' := by
  rcases take_cases s j with ⟨a, rest, hf, he⟩ | ⟨hf, hlt, he⟩ | ⟨-, -, he⟩
  · rw [he] at ht
    cases ht
    have hasc := h.free_ascending
    have hpart := h.partition
    rw [hf] at hasc hpart
    have hpart' := List.perm_middle.trans hpart
    refine ⟨rfl, rfl, rfl, (List.pairwise_cons.1 hasc).2, hpart', h.length_le, fun b hb => ?_, .inl rfl⟩
    have hlt : b < s.table.length :=
      Nat.lt_trans hb (h.lt_length_iff.2 (.inl (by rw [hf]; exact List.mem_cons_self)))
    rcases h.lt_length_iff.1 hlt with hfree | hused
    · -- the free slots ascend from the one that was taken
      rw [hf] at hfree
      rcases List.mem_cons.1 hfree with rfl | hrest
      · exact absurd hb (Nat.lt_irrefl b)
      · exact absurd ((List.pairwise_cons.1 hasc).1 b hrest) (Nat.not_lt_of_gt hb)
    · exact hused
  · rw [he] at ht
    cases ht
    have hpart := h.partition
    rw [hf, List.nil_append] at hpart
    refine ⟨rfl, rfl, rfl, h.free_ascending, ?_, ?_, fun b hb => hpart.mem_iff.2 (List.mem_range.2 hb), .inr ⟨hf, rfl, hf⟩⟩
    · rw [hf, List.nil_append, List.length_append, List.length_singleton, List.range_succ]
      exact (hpart.cons _).trans (List.perm_append_singleton _ _).symm
    · rw [List.length_append, List.length_singleton]
      exact hlt
  · rw [he] at ht
    cases ht

/-- The slots after the result of the command at `i`, last read at `last`, went to slot `n`. -/
def place (s : Slots) (i last n : Nat) : Slots :=
  { s with resultSlots := s.resultSlots ++ [(i, n)], expiring := s.expiring ++ [(last, n)] }

theorem knownAt_succ {x : Source} : x.KnownAt (i + 1) ↔ x = .result i ∨ x.KnownAt i := by
  cases x with
  | literal bs => simp [Source.KnownAt]
  | result j => simp [Source.KnownAt]; omega

theorem Balanced.slot?_result (h : Balanced l i m s) : s.slot? (.result i) = none := by
  cases hn : s.slot? (.result i) with
  | none => rfl
  | some n => exact absurd (h.known _ n hn) (Nat.lt_irrefl i)

theorem slot?_place {n last : Nat} (ht : Took s n s') (hi : s.slot? (.result i) = none) (x : Source) :
    (s'.place i last n).slot? x = if x = .result i then some n else s.slot? x := by
  cases x with
  | literal bs => simp [slot?, place, ht.literalSlots_eq]
  | result j =>
    simp only [slot?, place, ht.resultSlots_eq, Source.result.injEq]
    exact lookup_concat hi j

theorem held_place {n last : Nat} (h : Balanced l i (i + 1) s) (ht : Took s n s')
    (hlast : l.lastRead? (.result i) = some last) (hlt : i < last) {x : Source} {k a : Nat} :
    Held l (i + 1) (i + 1) (s'.place i last n) x k a ↔
      (x = .result i ∧ k = last ∧ a = n) ∨ Held l i (i + 1) s x k a := by
  unfold Held
  rw [slot?_place ht h.slot?_result, knownAt_succ]
  by_cases hx : x = .result i
  · subst hx
    rw [if_pos rfl, hlast]
    constructor
    · rintro ⟨-, hk, -, ha⟩
      exact .inl ⟨rfl, (Option.some.inj hk).symm, (Option.some.inj ha).symm⟩
    · rintro (⟨-, rfl, rfl⟩ | ⟨hk, -⟩)
      · exact ⟨.inl rfl, rfl, hlt, rfl⟩
      · exact absurd hk (Nat.lt_irrefl i)
  · simp [hx]

/-- **A result that is read later takes its place among the values held.** -/
theorem Balanced.place {n last : Nat} (h : Balanced l i (i + 1) s) (ht : Took s n s')
    (hlast : l.lastRead? (.result i) = some last) (hlt : i < last) :
    Balanced l (i + 1) (i + 1) (s'.place i last n) := by
  have hused : (s'.place i last n).used = s.used ++ [n] := by simp [used, Slots.place, ht.expiring_eq]
  have hheld := fun {x k a} => @held_place l i s s' n last h ht hlast hlt x k a
  have hfresh : ∀ {x k}, ¬ Held l i (i + 1) s x k n := fun hx => ht.not_mem_used (h.mem_used.2 ⟨_, _, hx⟩)
  refine ⟨ht.free_ascending, ?_, ht.length_le, fun k a => ?_, fun x y k k' a hx hy => ?_, fun x k hk hx => ?_,
    fun x a hx => ?_⟩
  · rw [hused]
    exact ((List.perm_append_singleton n s.used).append_left s'.free).trans ht.partition
  · have hmem : (k, a) ∈ (s'.place i last n).expiring ↔ (k = last ∧ a = n) ∨ (k, a) ∈ s.expiring := by
      simp [Slots.place, ht.expiring_eq, or_comm]
    rw [hmem, h.mem_expiring]
    simp only [hheld, exists_or, exists_eq_left]
  · rcases hheld.1 hx with ⟨hxi, -, han⟩ | hx <;> rcases hheld.1 hy with ⟨hyi, -, han'⟩ | hy
    · rw [hxi, hyi]
    · exact absurd (han ▸ hy) hfresh
    · exact absurd (han' ▸ hx) hfresh
    · exact h.held_unique x y k k' a hx hy
  · rw [slot?_place ht h.slot?_result]
    split
    · exact ⟨n, rfl⟩
    · rename_i hne
      exact h.placed x k ((knownAt_succ.1 hk).resolve_left hne) hx
  · rw [slot?_place ht h.slot?_result] at hx
    split at hx
    · rename_i he
      exact knownAt_succ.2 (.inl he)
    · exact knownAt_succ.2 (.inr (h.known x a hx))

theorem held_skip (hnone : l.lastRead? (.result i) = none) {x : Source} {k n : Nat} :
    Held l (i + 1) m s x k n ↔ Held l i m s x k n := by
  refine ⟨fun ⟨hk, hx⟩ => ⟨(knownAt_succ.1 hk).resolve_left ?_, hx⟩, fun ⟨hk, hx⟩ => ⟨knownAt_succ.2 (.inr hk), hx⟩⟩
  rintro rfl
  rw [hnone] at hx
  cases hx.1

/-- **A result that nothing reads changes nothing.** -/
theorem Balanced.skip (h : Balanced l i m s) (hnone : l.lastRead? (.result i) = none) : Balanced l (i + 1) m s := by
  refine ⟨h.free_ascending, h.partition, h.length_le, fun k n => ?_, fun x y k k' n hx hy => ?_, fun x k hk hx => ?_,
    fun x n hn => ?_⟩
  · simp only [h.mem_expiring, held_skip hnone]
  · exact h.held_unique x y k k' n ((held_skip hnone).1 hx) ((held_skip hnone).1 hy)
  · rcases knownAt_succ.1 hk with rfl | hk
    · rw [hnone] at hx
      cases hx
    · exact h.placed x k hk hx
  · exact knownAt_succ.2 (.inr (h.known x n hn))

theorem placeResult_cases (s : Slots) (l : Lifetimes) (i : Nat) (c : Command) :
    (l.lastRead? (.result i) = none ∧
      s.placeResult l i c = .ok (if c.replacesState then SlotRef.state.toByte else SlotRef.absent.toByte, s)) ∨
    ∃ last, l.lastRead? (.result i) = some last ∧
      ((c.replacesState = true ∧ s.placeResult l i c = .error (.returnReplaceConflict i last)) ∨
        (c.replacesState = false ∧
          ((∃ e, s.take i = .error e ∧ s.placeResult l i c = .error e) ∨
            ∃ n s', s.take i = .ok (n, s') ∧
              s.placeResult l i c = .ok ((SlotRef.slot (.ofNat n) c.call.outputIsDynamic).toByte, s'.place i last n)))) := by
  unfold placeResult
  cases hl : l.results.lookup i with
  | none => exact .inl ⟨hl, rfl⟩
  | some last =>
    refine .inr ⟨last, hl, ?_⟩
    cases hc : c.replacesState with
    | true => exact .inl ⟨rfl, by simp⟩
    | false =>
      refine .inr ⟨rfl, ?_⟩
      cases ht : s.take i with
      | error e => exact .inl ⟨e, rfl, by simp⟩
      | ok r => exact .inr ⟨r.1, r.2, rfl, by simp [place]⟩

end

end Slots
end CallPlan
