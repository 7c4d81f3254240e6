import CallPlan.Plan.Lifetimes
import CallPlan.Proofs.Reads
/-!
# What the pass over the commands notes

An accepted pass notes for every value its last reader and for every literal its first occurrence (`Lifetimes.Exact`), and
has found every result in an earlier command of the same planner (`AllReadable`).  A refused pass names the first argument,
in the order of commands and positions, that cannot be read (`FirstFault`).
-/
namespace CallPlan

/-- **Why the command at `i` cannot read an argument**: a result of another planner, or of a command that is not earlier. -/
def Value.fault? (planner i : Nat) : Value → Option PlanError
  | .result h =>
    if h.command.planner ≠ planner then some .foreignReturn
    else if i ≤ h.command.index then some (.danglingReference i h.command.index)
    else none
  | _         => none

/-- The argument at a position of the command at `i`. -/
def argAt? (cs : List Command) (i k : Nat) : Option Value := cs[i]?.bind (·.call.args[k]?)

/-- **`e` is the fault of the first argument that has one**, by command and then by position. -/
def FirstFault (planner : Nat) (cs : List Command) (e : PlanError) : Prop :=
  ∃ i k v, argAt? cs i k = some v ∧ v.fault? planner i = some e ∧
    ∀ i' k' v', i' < i ∨ i' = i ∧ k' < k → argAt? cs i' k' = some v' → v'.fault? planner i' = none

/-- **Every argument can be read**, the first command being at `i`. -/
def AllReadable (planner i : Nat) (cs : List Command) : Prop :=
  ∀ (j : Nat) (c : Command), cs[j]? = some c → ∀ v ∈ c.call.args, v.fault? planner (i + j) = none

namespace Lifetimes

/-- The last reader noted for a value. -/
def lastRead? (l : Lifetimes) : Source → Option Nat
  | .literal bs => l.literals.lookup bs
  | .result j   => l.results.lookup j

/-- **Every value is noted with its last reader, and the literals stand in the order of their first occurrence.** -/
structure Exact (cs : List Command) (l : Lifetimes) : Prop where
  lastRead_iff : ∀ x k, l.lastRead? x = some k ↔ IsLastReader cs x k
  literals_eq : l.literals.map Prod.fst = literalsOf cs

/-- **Reads at `i` were noted, and nothing else.** -/
structure Noted (i : Nat) (xs : List Source) (l l' : Lifetimes) : Prop where
  lastRead_eq : ∀ x, l'.lastRead? x = if x ∈ xs then some i else l.lastRead? x
  literals_eq : ∀ seen : List Bytes, l.literals.map Prod.fst = seen.eraseDups →
    l'.literals.map Prod.fst = (seen ++ xs.filterMap Source.bytes?).eraseDups

/-! ## One argument -/

theorem Noted.refl (i : Nat) (l : Lifetimes) : Noted i [] l l :=
  ⟨fun x => by simp, fun seen h => by simpa using h⟩

theorem Noted.trans {i : Nat} {xs ys : List Source} {l l' l'' : Lifetimes} (h : Noted i xs l l')
    (h' : Noted i ys l' l'') : Noted i (xs ++ ys) l l'' := by
  refine ⟨fun x => ?_, fun seen hs => ?_⟩
  · rw [h'.lastRead_eq, h.lastRead_eq]
    by_cases hy : x ∈ ys
    · simp [hy]
    · simp [hy]
  · rw [h'.literals_eq _ (h.literals_eq seen hs), List.filterMap_append, List.append_assoc]

/-- **What noting one argument does**: it fails with the argument's fault, and else notes what the argument reads. -/
theorem noteArg_cases (planner i : Nat) (l : Lifetimes) (v : Value) :
    (∃ e, v.fault? planner i = some e ∧ noteArg planner i l v = .error e) ∨
      (v.fault? planner i = none ∧ ∃ l', noteArg planner i l v = .ok l' ∧ Noted i v.source?.toList l l') := by
  cases v with
  | literal ty bs =>
    refine .inr ⟨rfl, _, rfl, fun x => ?_, fun seen hs => ?_⟩
    · cases x with
      | literal b => simp [lastRead?, Value.source?, Table.lookup_insert]
      | result j => simp [lastRead?, Value.source?]
    · simp only [Value.source?, Option.toList_some, List.filterMap_cons, Source.bytes?, List.filterMap_nil]
      rw [Table.map_fst_insert, hs, eraseDups_concat]
      by_cases hbs : bs ∈ seen.eraseDups <;> simp only [hbs, ↓reduceIte]
  | state => exact .inr ⟨rfl, l, rfl, Noted.refl i l⟩
  | result h =>
    by_cases hp : h.command.planner = planner
    · by_cases hi : i ≤ h.command.index
      · exact .inl ⟨.danglingReference i h.command.index, by simp [Value.fault?, hp, hi], by simp [noteArg, hp, hi]⟩
      · have hok : noteArg planner i l (.result h) = .ok { l with results := Table.insert h.command.index i l.results } := by
          simp [noteArg, hp, hi]
        refine .inr ⟨by simp [Value.fault?, hp, hi], _, hok, fun x => ?_, fun seen hs => ?_⟩
        · cases x with
          | literal b => simp [lastRead?, Value.source?]
          | result j => simp [lastRead?, Value.source?, Table.lookup_insert]
        · simpa [Value.source?, List.filterMap_cons, Source.bytes?] using hs
    · exact .inl ⟨.foreignReturn, by simp [Value.fault?, hp], by simp [noteArg, hp]⟩

/-! ## The arguments of a command -/

theorem noteArgs_ok {planner i : Nat} : ∀ {vs : List Value} {l l' : Lifetimes}, noteArgs planner i l vs = .ok l' →
    (∀ v ∈ vs, v.fault? planner i = none) ∧ Noted i (vs.filterMap Value.source?) l l'
  | [], l, l', h => by
    cases h
    exact ⟨fun v hv => (by cases hv), Noted.refl i l⟩
  | v :: vs, l, l', h => by
    unfold noteArgs at h
    rcases noteArg_cases planner i l v with ⟨e, -, he⟩ | ⟨hv, l₁, hl₁, hn⟩
    · rw [he] at h; cases h
    · rw [hl₁] at h
      obtain ⟨hvs, hn'⟩ := noteArgs_ok h
      refine ⟨fun u hu => ?_, ?_⟩
      · rcases List.mem_cons.1 hu with rfl | hu
        · exact hv
        · exact hvs u hu
      · have hs : (v :: vs).filterMap Value.source? = v.source?.toList ++ vs.filterMap Value.source? := by
          cases hx : v.source? <;> simp [hx]
        rw [hs]
        exact hn.trans hn'

theorem noteArgs_error {planner i : Nat} : ∀ {vs : List Value} {l : Lifetimes} {e : PlanError},
    noteArgs planner i l vs = .error e →
      ∃ (k : Nat) (v : Value), vs[k]? = some v ∧ v.fault? planner i = some e ∧
        ∀ (k' : Nat) (v' : Value), k' < k → vs[k']? = some v' → v'.fault? planner i = none
  | [], l, e, h => by cases h
  | v :: vs, l, e, h => by
    unfold noteArgs at h
    rcases noteArg_cases planner i l v with ⟨e', hv, he⟩ | ⟨hv, l₁, hl₁, -⟩
    · rw [he] at h
      cases h
      exact ⟨0, v, rfl, hv, fun k' v' hk' => absurd hk' (Nat.not_lt_zero _)⟩
    · rw [hl₁] at h
      obtain ⟨k, u, hu, hf, hlt⟩ := noteArgs_error h
      refine ⟨k + 1, u, hu, hf, fun k' v' hk' hv' => ?_⟩
      cases k' with
      | zero => cases hv'; exact hv
      | succ k' => exact hlt k' v' (by omega) hv'

/-! ## The commands -/

theorem Exact.empty : Exact [] {} := by
  refine ⟨fun x k => ⟨fun h => ?_, fun h => absurd h.1.lt_length (Nat.not_lt_zero k)⟩, rfl⟩
  cases x <;> cases h

/-- **Noting what the next command reads keeps the notes exact.** -/
theorem Exact.concat {cs : List Command} {l l' : Lifetimes} {c : Command} (h : Exact cs l)
    (hn : Noted cs.length c.sources l l') : Exact (cs ++ [c]) l' := by
  refine ⟨fun x k => ?_, ?_⟩
  · rw [hn.lastRead_eq, isLastReader_concat]
    split
    · exact ⟨fun h => (Option.some.inj h).symm, fun h => h ▸ rfl⟩
    · exact h.lastRead_iff x k
  · rw [hn.literals_eq _ h.literals_eq, literalsOf, ← List.filterMap_append]
    simp [sourcesOf]

theorem noteCommands_ok {planner : Nat} : ∀ {cs pre : List Command} {l l' : Lifetimes}, Exact pre l →
    noteCommands planner pre.length l cs = .ok l' → AllReadable planner pre.length cs ∧ Exact (pre ++ cs) l'
  | [], pre, l, l', hl, h => by
    cases h
    exact ⟨fun j c hj => (by cases hj), by simpa using hl⟩
  | c :: cs, pre, l, l', hl, h => by
    unfold noteCommands at h
    cases hc : noteArgs planner pre.length l c.call.args with
    | error e => rw [hc] at h; cases h
    | ok l₁ =>
      rw [hc] at h
      obtain ⟨hread, hn⟩ := noteArgs_ok hc
      have hlen : (pre ++ [c]).length = pre.length + 1 := by simp
      obtain ⟨hall, hl'⟩ := noteCommands_ok (hl.concat hn) (by rw [hlen]; exact h)
      refine ⟨fun j d hj => ?_, by simpa using hl'⟩
      cases j with
      | zero => cases hj; exact hread
      | succ j =>
        have := hall j d hj
        rwa [hlen, show pre.length + 1 + j = pre.length + (j + 1) by omega] at this

theorem noteCommands_error {planner : Nat} : ∀ {cs : List Command} {i : Nat} {l : Lifetimes} {e : PlanError},
    noteCommands planner i l cs = .error e →
      ∃ j k v, argAt? cs j k = some v ∧ v.fault? planner (i + j) = some e ∧
        ∀ j' k' v', j' < j ∨ j' = j ∧ k' < k → argAt? cs j' k' = some v' → v'.fault? planner (i + j') = none
  | [], i, l, e, h => by cases h
  | c :: cs, i, l, e, h => by
    unfold noteCommands at h
    cases hc : noteArgs planner i l c.call.args with
    | error e' =>
      rw [hc] at h
      cases h
      obtain ⟨k, v, hv, hf, hlt⟩ := noteArgs_error hc
      refine ⟨0, k, v, hv, hf, fun j' k' v' hlt' hv' => ?_⟩
      rcases hlt' with hj | ⟨rfl, hk⟩
      · exact absurd hj (Nat.not_lt_zero j')
      · exact hlt k' v' hk hv'
    | ok l₁ =>
      rw [hc] at h
      obtain ⟨j, k, v, hv, hf, hlt⟩ := noteCommands_error h
      refine ⟨j + 1, k, v, hv, by rwa [show i + (j + 1) = i + 1 + j by omega], fun j' k' v' hlt' hv' => ?_⟩
      cases j' with
      | zero => exact (noteArgs_ok hc).1 v' (List.mem_of_getElem? hv')
      | succ j' =>
        rw [show i + (j' + 1) = i + 1 + j' by omega]
        exact hlt j' k' v' (by omega) hv'

/-- **An accepted pass found every argument readable, and its notes are exact.** -/
theorem analyze_ok {planner : Nat} {cs : List Command} {l : Lifetimes} (h : analyze planner cs = .ok l) :
    AllReadable planner 0 cs ∧ Exact cs l := noteCommands_ok Exact.empty h

/-- **A refused pass names the first argument that cannot be read.** -/
theorem analyze_error {planner : Nat} {cs : List Command} {e : PlanError} (h : analyze planner cs = .error e) :
    FirstFault planner cs e := by
  obtain ⟨i, k, v, hv, hf, hlt⟩ := noteCommands_error h
  simp only [Nat.zero_add] at hf hlt
  exact ⟨i, k, v, hv, hf, hlt⟩

end Lifetimes

/-! ## Arguments and what they read -/

theorem argAt?_eq_some_iff {cs : List Command} {i k : Nat} {v : Value} :
    argAt? cs i k = some v ↔ ∃ c, cs[i]? = some c ∧ c.call.args[k]? = some v := by
  simp [argAt?, Option.bind_eq_some_iff]

section
variable {cs : List Command} {i k : Nat}

theorem reads_of_argAt? {v : Value} {x : Source} (hv : argAt? cs i k = some v) (hx : v.source? = some x) :
    Reads cs x i := by
  obtain ⟨c, hc, hk⟩ := argAt?_eq_some_iff.1 hv
  exact reads_iff.2 ⟨c, hc, List.mem_filterMap.2 ⟨v, List.mem_of_getElem? hk, hx⟩⟩

theorem exists_argAt?_of_reads {x : Source} (h : Reads cs x i) :
    ∃ k v, argAt? cs i k = some v ∧ v.source? = some x := by
  obtain ⟨c, hc, hx⟩ := reads_iff.1 h
  obtain ⟨v, hv, hs⟩ := List.mem_filterMap.1 hx
  obtain ⟨k, hk⟩ := List.mem_iff_getElem?.1 hv
  exact ⟨k, v, argAt?_eq_some_iff.2 ⟨c, hc, hk⟩, hs⟩

theorem reads_literal_iff {bs : Bytes} :
    Reads cs (.literal bs) i ↔ ∃ k ty, argAt? cs i k = some (.literal ty bs) := by
  constructor
  · intro hr
    obtain ⟨k, v, hv, hs⟩ := exists_argAt?_of_reads hr
    cases v with
    | literal ty b => cases hs; exact ⟨k, ty, hv⟩
    | result h => cases hs
    | state => cases hs
  · rintro ⟨k, ty, hv⟩
    exact reads_of_argAt? hv rfl

theorem reads_result_iff {j : Nat} :
    Reads cs (.result j) i ↔ ∃ k h, argAt? cs i k = some (.result h) ∧ h.command.index = j := by
  constructor
  · intro hr
    obtain ⟨k, v, hv, hs⟩ := exists_argAt?_of_reads hr
    cases v with
    | literal ty b => cases hs
    | result h => cases hs; exact ⟨k, h, hv, rfl⟩
    | state => cases hs
  · rintro ⟨k, h, hv, rfl⟩
    exact reads_of_argAt? hv rfl

end

/-! ## Readable commands -/

section
variable {planner : Nat} {cs : List Command}

theorem Value.fault?_eq_none_iff {i : Nat} {v : Value} : v.fault? planner i = none ↔
    ∀ h, v = .result h → h.command.planner = planner ∧ h.command.index < i := by
  cases v with
  | literal ty bs => simp [Value.fault?]
  | state => simp [Value.fault?]
  | result hd =>
    by_cases hp : hd.command.planner = planner
    · by_cases hi : i ≤ hd.command.index
      · simp [Value.fault?, hp, hi]
      · simp [Value.fault?, hp, hi, Nat.lt_of_not_le hi]
    · simp [Value.fault?, hp]

theorem AllReadable.fault?_eq_none (h : AllReadable planner 0 cs) {i k : Nat} {v : Value}
    (hv : argAt? cs i k = some v) : v.fault? planner i = none := by
  obtain ⟨c, hc, hk⟩ := argAt?_eq_some_iff.1 hv
  have := h i c hc v (List.mem_of_getElem? hk)
  rwa [Nat.zero_add] at this

/-- **Every argument can be read exactly when every handle is of the planner and of an earlier command.** -/
theorem allReadable_iff : AllReadable planner 0 cs ↔
    ∀ i k h, argAt? cs i k = some (.result h) → h.command.planner = planner ∧ h.command.index < i := by
  constructor
  · intro hr i k h hv
    exact Value.fault?_eq_none_iff.1 (hr.fault?_eq_none hv) h rfl
  · intro hall i c hc v hv
    obtain ⟨k, hk⟩ := List.mem_iff_getElem?.1 hv
    rw [Nat.zero_add, Value.fault?_eq_none_iff]
    rintro h rfl
    exact hall i k h (argAt?_eq_some_iff.2 ⟨c, hc, hk⟩)

/-- **A result is read by later commands only.** -/
theorem AllReadable.lt_of_reads (h : AllReadable planner 0 cs) {j k : Nat} (hr : Reads cs (.result j) k) : j < k := by
  obtain ⟨m, hd, hv, rfl⟩ := reads_result_iff.1 hr
  exact (allReadable_iff.1 h k m hd hv).2

/-- A value is known before any command that reads it. -/
theorem AllReadable.knownAt_of_reads (h : AllReadable planner 0 cs) {x : Source} {k : Nat} (hr : Reads cs x k) :
    x.KnownAt k := by
  cases x with
  | literal bs => trivial
  | result j => exact h.lt_of_reads hr

theorem AllReadable.concat {c : Command} (h : AllReadable planner 0 cs)
    (hc : ∀ v ∈ c.call.args, v.fault? planner cs.length = none) : AllReadable planner 0 (cs ++ [c]) := by
  intro i d hi
  rcases getElem?_concat_eq_some_iff.1 hi with hi | ⟨rfl, rfl⟩
  · exact h i d hi
  · rwa [Nat.zero_add]

theorem FirstFault.not_allReadable {e : PlanError} (h : FirstFault planner cs e) : ¬ AllReadable planner 0 cs := by
  intro hr
  obtain ⟨i, k, v, hv, hf, -⟩ := h
  rw [hr.fault?_eq_none hv] at hf
  cases hf

end
end CallPlan
