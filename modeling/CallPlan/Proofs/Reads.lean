import CallPlan.Plan.Command
import Mathlib.Data.Finset.Card
import Mathlib.Data.Nat.Find
/-!
# Who reads what

A slot holds a literal or the result of a command.  `Reads cs x k` says that the command at `k` reads the value `x`, and
`IsLastReader` that no later command does.  A value is `Needed` at two positions: known before the first, read at or behind
the second.  `LiveAfter cs c` puts both right behind the command at `c`, and `liveCount` counts what is live there.
Specification only: no pass over the commands computes any of this.
-/
namespace CallPlan

/-- What a slot holds: a literal, by its bytes, or the result of the command at a position. -/
inductive Source where
  | literal (bytes : Bytes)
  | result (command : Nat)
deriving DecidableEq

/-- What an argument reads; the whole table is no slot's. -/
def Value.source? : Value → Option Source
  | .literal _ bs => some (.literal bs)
  | .result h     => some (.result h.command.index)
  | .state        => none

/-- What a command reads, in the order of its arguments. -/
def Command.sources (c : Command) : List Source := c.call.args.filterMap Value.source?

/-- What a list of commands reads, in order and with repetitions. -/
def sourcesOf (cs : List Command) : List Source := cs.flatMap Command.sources

/-- The bytes of a literal. -/
def Source.bytes? : Source → Option Bytes
  | .literal bs => some bs
  | .result _   => none

/-- The literals of a list of commands, each where it first occurs. -/
def literalsOf (cs : List Command) : List Bytes := ((sourcesOf cs).filterMap Source.bytes?).eraseDups

/-- **The value is there before the command at `i`**: a literal always, a result behind its command. -/
def Source.KnownAt (i : Nat) : Source → Prop
  | .literal _ => True
  | .result j  => j < i

/-- **The command at `k` reads the value.** -/
def Reads (cs : List Command) (x : Source) (k : Nat) : Prop := ∃ c ∈ cs[k]?, x ∈ c.sources

/-- **The command at `k` is the last to read the value.** -/
def IsLastReader (cs : List Command) (x : Source) (k : Nat) : Prop :=
  Reads cs x k ∧ ∀ k', Reads cs x k' → k' ≤ k

/-- **The value is known before the command at `i` and read by one at or behind `m`.** -/
def Needed (cs : List Command) (i m : Nat) (x : Source) : Prop := x.KnownAt i ∧ ∃ k, m ≤ k ∧ Reads cs x k

/-- **The value is there after the command at `c`, and a later command reads it.** -/
def LiveAfter (cs : List Command) (c : Nat) (x : Source) : Prop := Needed cs (c + 1) (c + 1) x

instance (i : Nat) (x : Source) : Decidable (x.KnownAt i) :=
  match x with
  | .literal _ => .isTrue trivial
  | .result j  => Nat.decLt j i

instance (cs : List Command) (x : Source) (k : Nat) : Decidable (Reads cs x k) :=
  inferInstanceAs (Decidable (∃ c ∈ cs[k]?, x ∈ c.sources))

theorem reads_iff {cs : List Command} {x : Source} {k : Nat} :
    Reads cs x k ↔ ∃ c, cs[k]? = some c ∧ x ∈ c.sources := by
  simp [Reads]

theorem Reads.lt_length {cs : List Command} {x : Source} {k : Nat} (h : Reads cs x k) : k < cs.length := by
  obtain ⟨c, hc, -⟩ := reads_iff.1 h
  exact (List.getElem?_eq_some_iff.1 hc).1

theorem needed_iff_bounded {cs : List Command} {i m : Nat} {x : Source} :
    (x.KnownAt i ∧ ∃ k, k < cs.length ∧ m ≤ k ∧ Reads cs x k) ↔ Needed cs i m x :=
  and_congr_right fun _ => exists_congr fun _ => ⟨fun h => h.2, fun h => ⟨h.2.lt_length, h⟩⟩

instance (cs : List Command) (i m : Nat) : DecidablePred (Needed cs i m) := fun _ =>
  decidable_of_iff _ needed_iff_bounded

/-- The values that are needed. -/
def neededSet (cs : List Command) (i m : Nat) : Finset Source := {x ∈ (sourcesOf cs).toFinset | Needed cs i m x}

/-- **How many values are live after the command at `c`.** -/
def liveCount (cs : List Command) (c : Nat) : Nat := (neededSet cs (c + 1) (c + 1)).card

theorem Reads.mem_sourcesOf {cs : List Command} {x : Source} {k : Nat} (h : Reads cs x k) : x ∈ sourcesOf cs := by
  obtain ⟨c, hc, hx⟩ := reads_iff.1 h
  exact List.mem_flatMap.2 ⟨c, List.mem_of_getElem? hc, hx⟩

theorem mem_sourcesOf_iff {cs : List Command} {x : Source} : x ∈ sourcesOf cs ↔ ∃ k, Reads cs x k := by
  refine ⟨fun h => ?_, fun ⟨_, h⟩ => h.mem_sourcesOf⟩
  obtain ⟨c, hc, hx⟩ := List.mem_flatMap.1 h
  obtain ⟨k, hk⟩ := List.mem_iff_getElem?.1 hc
  exact ⟨k, reads_iff.2 ⟨c, hk, hx⟩⟩

theorem mem_neededSet {cs : List Command} {i m : Nat} {x : Source} : x ∈ neededSet cs i m ↔ Needed cs i m x := by
  rw [neededSet, Finset.mem_filter, List.mem_toFinset]
  exact ⟨fun h => h.2, fun h => ⟨h.2.choose_spec.2.mem_sourcesOf, h⟩⟩

theorem mem_literalsOf {cs : List Command} {bs : Bytes} : bs ∈ literalsOf cs ↔ ∃ k, Reads cs (.literal bs) k := by
  rw [literalsOf, List.mem_eraseDups, List.mem_filterMap, ← mem_sourcesOf_iff]
  constructor
  · rintro ⟨x, hx, hbs⟩
    cases x with
    | literal b => cases hbs; exact hx
    | result j => cases hbs
  · exact fun h => ⟨_, h, rfl⟩

/-! ## One element more -/

theorem getElem?_of_drop_eq_cons {α : Type} {l rest : List α} {a : α} {i : Nat} (h : l.drop i = a :: rest) :
    l[i]? = some a ∧ l.drop (i + 1) = rest :=
  ⟨by rw [← Nat.add_zero i, ← List.getElem?_drop, h]; rfl, by rw [← List.drop_drop, h]; rfl⟩

theorem getElem?_of_cons_isPrefix_drop {α : Type} {l rest : List α} {a : α} {i : Nat} (h : a :: rest <+: l.drop i) :
    l[i]? = some a ∧ rest <+: l.drop (i + 1) := by
  obtain ⟨more, hmore⟩ := h
  obtain ⟨ha, hrest⟩ := getElem?_of_drop_eq_cons hmore.symm
  exact ⟨ha, more, hrest.symm⟩

theorem getElem?_of_isPrefix {α : Type} {l l' : List α} (h : l <+: l') {i : Nat} {a : α} (ha : l[i]? = some a) :
    l'[i]? = some a := by
  obtain ⟨more, rfl⟩ := h
  rw [List.getElem?_append_left (List.getElem?_eq_some_iff.1 ha).1, ha]

theorem lookup_concat {α β : Type} [DecidableEq α] {l : List (α × β)} {k : α} {b : β} (hnew : l.lookup k = none) (a : α) :
    (l ++ [(k, b)]).lookup a = if a = k then some b else l.lookup a := by
  rw [List.lookup_append]
  by_cases h : a = k
  · subst h
    simp [hnew]
  · simp [List.lookup_cons, beq_eq_false_iff_ne.2 h, h]

theorem getElem?_concat_eq_some_iff {α : Type} {l : List α} {a b : α} {i : Nat} :
    (l ++ [a])[i]? = some b ↔ l[i]? = some b ∨ (i = l.length ∧ a = b) := by
  rcases Nat.lt_trichotomy i l.length with hi | rfl | hi
  · simp [List.getElem?_append_left hi, Nat.ne_of_lt hi]
  · simp
  · have hlen : (l ++ [a]).length ≤ i := by rw [List.length_append]; exact hi
    simp [List.getElem?_eq_none hlen, List.getElem?_eq_none (Nat.le_of_lt hi), Nat.ne_of_gt hi]

theorem exists_getElem?_concat {α : Type} {P : α → Prop} {l : List α} {a : α} {i : Nat} :
    (∃ b, (l ++ [a])[i]? = some b ∧ P b) ↔ (∃ b, l[i]? = some b ∧ P b) ∨ (i = l.length ∧ P a) := by
  simp only [getElem?_concat_eq_some_iff, or_and_right, exists_or, and_assoc, exists_and_left, exists_eq_left']

theorem reads_concat {cs : List Command} {c : Command} {x : Source} {k : Nat} :
    Reads (cs ++ [c]) x k ↔ Reads cs x k ∨ (k = cs.length ∧ x ∈ c.sources) := by
  rw [reads_iff, reads_iff, exists_getElem?_concat]

/-- **A value that the added command reads has it as last reader, any other keeps the one it had.** -/
theorem isLastReader_concat {cs : List Command} {c : Command} {x : Source} {k : Nat} :
    IsLastReader (cs ++ [c]) x k ↔ if x ∈ c.sources then k = cs.length else IsLastReader cs x k := by
  unfold IsLastReader
  simp only [reads_concat]
  split
  · rename_i hx
    constructor
    · rintro ⟨hk, hmax⟩
      have hle : cs.length ≤ k := hmax _ (.inr ⟨rfl, hx⟩)
      rcases hk with hk | hk
      · exact absurd hk.lt_length (Nat.not_lt_of_le hle)
      · exact hk.1
    · rintro rfl
      refine ⟨.inr ⟨rfl, hx⟩, fun k' hk' => ?_⟩
      rcases hk' with hk' | hk'
      · exact Nat.le_of_lt hk'.lt_length
      · exact Nat.le_of_eq hk'.1
  · rename_i hx
    simp [hx]

/-- **A value that is read has a last reader.** -/
theorem Reads.exists_last {cs : List Command} {x : Source} {k : Nat} (h : Reads cs x k) :
    ∃ m, k ≤ m ∧ IsLastReader cs x m := by
  refine ⟨Nat.findGreatest (Reads cs x) cs.length, Nat.le_findGreatest (Nat.le_of_lt h.lt_length) h, ?_, ?_⟩
  · exact Nat.findGreatest_spec (Nat.le_of_lt h.lt_length) h
  · exact fun k' h' => Nat.le_findGreatest (Nat.le_of_lt h'.lt_length) h'

/-- **Being needed is to be known in time and to have a last reader that is not yet past.** -/
theorem needed_iff_last {cs : List Command} {i m : Nat} {x : Source} :
    Needed cs i m x ↔ x.KnownAt i ∧ ∃ k, m ≤ k ∧ IsLastReader cs x k := by
  refine and_congr_right fun _ => ⟨fun ⟨k, hm, hk⟩ => ?_, fun ⟨k, hm, hk⟩ => ⟨k, hm, hk.1⟩⟩
  obtain ⟨k', hk', hlast⟩ := hk.exists_last
  exact ⟨k', Nat.le_trans hm hk', hlast⟩

end CallPlan
