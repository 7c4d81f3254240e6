import CallPlan.Proofs.LiteralTable
import Mathlib.Order.Bounds.Basic
/-!
# Last uses

The pass over the commands is accepted exactly when every handle among the arguments is of the planner and of an earlier
command (`Lifetimes.exists_analyze_iff`, `allReadable_iff`).  Its two lists are then maps: each key stands once, since noting a
use either moves an entry or adds one for a new key (`KeysOnce`), the keys are what is used, and each comes with the last command
that uses it (`LastUses`).  What is used is said here by the arguments alone.
-/
namespace CallPlan

/-- **The command at `i` has the literal among its arguments**, at whatever type. -/
def HasLiteral (cs : List Command) (bs : Bytes) (i : Nat) : Prop := ∃ k ty, argAt? cs i k = some (.literal ty bs)

/-- **The command at `i` has a handle to the command at `j` among its arguments.** -/
def NamesCommand (cs : List Command) (j i : Nat) : Prop := ∃ k h, argAt? cs i k = some (.result h) ∧ h.command.index = j

/-- **One literal is first met before another.** -/
def MetBefore (cs : List Command) (b b' : Bytes) : Prop :=
  ∃ i k i' k', FirstMet cs b i k ∧ FirstMet cs b' i' k' ∧ ArgBefore i k i' k'

/-- **A list maps exactly what is used to its last use**: `uses a i` says that the command at `i` uses `a`. -/
structure LastUses {α : Type} (uses : α → Nat → Prop) (l : List (α × Nat)) : Prop where
  nodup_keys : (l.map Prod.fst).Nodup
  mem_keys_iff : ∀ a, a ∈ l.map Prod.fst ↔ ∃ i, uses a i
  isGreatest : ∀ a n, (a, n) ∈ l → IsGreatest {i | uses a i} n

/-! ## Keys stand once -/

namespace Lifetimes

/-- **No literal and no command is noted twice.** -/
structure KeysOnce (l : Lifetimes) : Prop where
  literals : (l.literals.map Prod.fst).Nodup
  results : (l.results.map Prod.fst).Nodup

section
variable {planner i : Nat} {l l' : Lifetimes}

theorem KeysOnce.noteArg {v : Value} (hl : l.KeysOnce) (h : noteArg planner i l v = .ok l') : l'.KeysOnce := by
  cases v with
  | literal ty bs =>
    cases h
    exact ⟨Table.nodup_map_fst_alter hl.literals, hl.results⟩
  | state =>
    cases h
    exact hl
  | result hd =>
    simp only [Lifetimes.noteArg] at h
    split_ifs at h
    cases h
    exact ⟨hl.literals, Table.nodup_map_fst_alter hl.results⟩

theorem KeysOnce.noteArgs : ∀ {vs : List Value} {l : Lifetimes}, l.KeysOnce → noteArgs planner i l vs = .ok l' → l'.KeysOnce
  | [], l, hl, h => by
    cases h
    exact hl
  | v :: vs, l, hl, h => by
    unfold Lifetimes.noteArgs at h
    cases hv : Lifetimes.noteArg planner i l v with
    | error e => rw [hv] at h; cases h
    | ok l₁ =>
      rw [hv] at h
      exact (hl.noteArg hv).noteArgs h

theorem KeysOnce.noteCommands : ∀ {cs : List Command} {i : Nat} {l : Lifetimes}, l.KeysOnce →
    noteCommands planner i l cs = .ok l' → l'.KeysOnce
  | [], i, l, hl, h => by
    cases h
    exact hl
  | c :: cs, i, l, hl, h => by
    unfold Lifetimes.noteCommands at h
    cases hc : Lifetimes.noteArgs planner i l c.call.args with
    | error e => rw [hc] at h; cases h
    | ok l₁ =>
      rw [hc] at h
      exact (hl.noteArgs hc).noteCommands h

end

theorem keysOnce_of_analyze {planner : Nat} {cs : List Command} {l : Lifetimes} (h : analyze planner cs = .ok l) :
    l.KeysOnce := by
  have hempty : KeysOnce {} := ⟨.nil, .nil⟩
  exact hempty.noteCommands h

end Lifetimes

/-! ## What is noted -/

/-- **Exact notes hold last uses**: either of their lists `m`, whose keys stand for values that are read where they are used. -/
theorem LastUses.of_exact {α : Type} [BEq α] [LawfulBEq α] {uses : α → Nat → Prop} {value : α → Source} {m : List (α × Nat)}
    {cs : List Command} {l : Lifetimes} (hl : l.Exact cs) (hnd : (m.map Prod.fst).Nodup)
    (hlookup : ∀ a, m.lookup a = l.lastRead? (value a)) (huses : ∀ a i, Reads cs (value a) i ↔ uses a i) :
    LastUses uses m := by
  -- with each key once, looking a key up and finding its entry are the same
  have hmem : ∀ a n, (a, n) ∈ m ↔ IsLastReader cs (value a) n := by
    intro a n
    rw [← Table.lookup_eq_some_iff_mem hnd, hlookup, hl.lastRead_iff]
  refine ⟨hnd, fun a => ⟨fun ha => ?_, ?_⟩, fun a n hn => ?_⟩
  · obtain ⟨⟨a, n⟩, hn, rfl⟩ := List.mem_map.1 ha
    exact ⟨n, (huses a n).1 ((hmem a n).1 hn).1⟩
  · rintro ⟨i, hi⟩
    obtain ⟨n, -, hn⟩ := ((huses a i).2 hi).exists_last
    exact List.mem_map.2 ⟨(a, n), (hmem a n).2 hn, rfl⟩
  · obtain ⟨hreads, hmax⟩ := (hmem a n).1 hn
    exact ⟨(huses a n).1 hreads, fun i hi => hmax i ((huses a i).2 hi)⟩

theorem pairwise_metBefore (cs : List Command) : (literalsOf cs).Pairwise (MetBefore cs) := by
  rw [List.pairwise_iff_getElem]
  intro n n' hn hn' hlt
  obtain ⟨i, k, hfirst⟩ := exists_firstMet (List.getElem_mem hn)
  obtain ⟨i', k', hfirst'⟩ := exists_firstMet (List.getElem_mem hn')
  have hbefore := hfirst.lt_iff_before hfirst' (List.getElem?_eq_getElem hn) (List.getElem?_eq_getElem hn')
  exact ⟨i, k, i', k', hfirst, hfirst', hbefore.1 hlt⟩

namespace Lifetimes

theorem exists_analyze_iff {planner : Nat} {cs : List Command} :
    (∃ l, analyze planner cs = .ok l) ↔ AllReadable planner 0 cs := by
  refine ⟨fun ⟨l, hl⟩ => (analyze_ok hl).1, fun hr => ?_⟩
  cases ha : analyze planner cs with
  | ok l => exact ⟨l, rfl⟩
  | error e => exact absurd hr (analyze_error ha).not_allReadable

/-- **The pass finds exactly the last uses.**  It is accepted if and only if every handle among the arguments is of the planner
and of an earlier command than the one that has it.  Then the literals are mapped to the last command that has them, in the
order in which they are first met, and the commands that handles name to the last command that names them, which is a later
one. -/
theorem analyze_lastUses (planner : Nat) (cs : List Command) :
    ((∃ l, analyze planner cs = .ok l) ↔
      ∀ i k h, argAt? cs i k = some (.result h) → h.command.planner = planner ∧ h.command.index < i) ∧
    ∀ l, analyze planner cs = .ok l →
      LastUses (HasLiteral cs) l.literals ∧ (l.literals.map Prod.fst).Pairwise (MetBefore cs) ∧
      LastUses (NamesCommand cs) l.results ∧ ∀ j n, (j, n) ∈ l.results → j < n := by
  refine ⟨exists_analyze_iff.trans allReadable_iff, fun l ha => ?_⟩
  obtain ⟨hr, hl⟩ := analyze_ok ha
  have hk := keysOnce_of_analyze ha
  have hresults : LastUses (NamesCommand cs) l.results :=
    .of_exact hl hk.results (fun _ => rfl) fun _ _ => reads_result_iff
  refine ⟨.of_exact hl hk.literals (fun _ => rfl) fun _ _ => reads_literal_iff, ?_, hresults, fun j n hn => ?_⟩
  · rw [hl.literals_eq]
    exact pairwise_metBefore cs
  · exact hr.lt_of_reads (reads_result_iff.2 (hresults.isGreatest j n hn).1)

/-- The sum `1 + 2` is added to `3` and then to `1`, which is read again. -/
def sumReadTwice : List Command :=
  let sum : Value := .result ⟨.uint 256, ⟨0, 0⟩⟩
  let add (a b : Value) : Command := ⟨⟨Block.fill 20 0xEE, addFunction, [a, b]⟩, false⟩
  [add (.literal (.uint 256) [1]) (.literal (.uint 256) [2]), add (.literal (.uint 256) [3]) sum,
    add (.literal (.uint 256) [1]) sum]

theorem analyze_lastUses_sumReadTwice :
    analyze 0 sumReadTwice = .ok ⟨[([1], 2), ([2], 0), ([3], 1)], [(0, 2)]⟩ ∧
      IsGreatest {i | HasLiteral sumReadTwice [1] i} 2 ∧ MetBefore sumReadTwice [1] [3] ∧
      IsGreatest {i | NamesCommand sumReadTwice 0 i} 2 := by
  obtain ⟨hliterals, horder, hresults, -⟩ := (analyze_lastUses 0 sumReadTwice).2 _ rfl
  refine ⟨rfl, hliterals.isGreatest [1] 2 (by decide), ?_, hresults.isGreatest 0 2 (by decide)⟩
  exact List.rel_of_pairwise_cons horder (by decide)

end Lifetimes
end CallPlan
