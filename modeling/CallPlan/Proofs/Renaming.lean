import CallPlan.Proofs.LiteralTable
import Mathlib.Logic.Equiv.Basic
/-!
# Renaming literals and planners

A plan looks at the bytes of a literal and at the identity of a planner only to ask whether two are equal.  So renaming both
one to one commutes with every pass: with the notes on who reads what last (`Lifetimes.analyze_rename`), with giving out slots
(`Slots.assembleAll_rename`), and with planning as a whole (`Planner.plan_rename`).  The slots of literals are renamed in the
table and those of results are not, though a literal can be empty as they are; the number of literals tells them apart.
-/
namespace CallPlan

/-! ## Renaming -/

def Value.rename (r : Bytes → Bytes) (q : Nat → Nat) : Value → Value
  | .literal ty bs => .literal ty (r bs)
  | .result h      => .result ⟨h.kind, ⟨q h.command.planner, h.command.index⟩⟩
  | .state         => .state

def Command.rename (r : Bytes → Bytes) (q : Nat → Nat) (c : Command) : Command :=
  ⟨⟨c.call.address, c.call.function, c.call.args.map (Value.rename r q)⟩, c.replacesState⟩

/-- The planner of the same calls with every literal and every identity renamed. -/
def Planner.rename (r : Bytes → Bytes) (q : Nat → Nat) (p : Planner) : Planner :=
  ⟨q p.id, p.commands.map (Command.rename r q)⟩

def Lifetimes.rename (r : Bytes → Bytes) (l : Lifetimes) : Lifetimes :=
  { l with literals := l.literals.map (Prod.map r id) }

/-- A table with its first `k` slots renamed. -/
def renameTable (r : Bytes → Bytes) (k : Nat) (table : List Bytes) : List Bytes := (table.take k).map r ++ table.drop k

def Slots.rename (r : Bytes → Bytes) (k : Nat) (s : Slots) : Slots :=
  { s with table := renameTable r k s.table, literalSlots := s.literalSlots.map (Prod.map r id) }

def Program.rename (r : Bytes → Bytes) (k : Nat) (prog : Program) : Program :=
  ⟨prog.instructions, renameTable r k prog.state⟩

section
variable {r : Bytes → Bytes} {q : Nat → Nat}

@[simp] theorem length_renameTable (k : Nat) (table : List Bytes) : (renameTable r k table).length = table.length := by
  simp [renameTable]
  omega

theorem renameTable_length (table : List Bytes) : renameTable r table.length table = table.map r := by
  rw [renameTable, List.take_length, List.drop_length, List.append_nil]

theorem renameTable_append {k : Nat} {table : List Bytes} (hk : k ≤ table.length) (more : List Bytes) :
    renameTable r k (table ++ more) = renameTable r k table ++ more := by
  unfold renameTable
  rw [List.take_append_of_le_length hk, List.drop_append_of_le_length hk, List.append_assoc]

theorem Value.isDynamic_rename (v : Value) : (v.rename r q).isDynamic = v.isDynamic := by cases v <;> rfl

/-! ## Last readers -/

theorem insert_map (hr : Function.Injective r) (k : Bytes) (i : Nat) : ∀ l : List (Bytes × Nat),
    Table.insert (r k) i (l.map (Prod.map r id)) = (Table.insert k i l).map (Prod.map r id)
  | [] => rfl
  | (a, n) :: l => by
    have ih := insert_map hr k i l
    by_cases h : a = k
    · simp [Table.insert, Table.alter, h]
    · have hne : r a ≠ r k := fun he => h (hr he)
      rw [Table.insert, Table.insert] at ih
      simp [Table.insert, Table.alter, h, hne, ih]

namespace Lifetimes

theorem noteArg_rename (hr : Function.Injective r) (hq : Function.Injective q) (planner i : Nat) (l : Lifetimes)
    (v : Value) :
    noteArg (q planner) i (l.rename r) (v.rename r q) = (noteArg planner i l v).map (Lifetimes.rename r) := by
  cases v with
  | literal ty bs =>
    simp only [noteArg, Value.rename, Lifetimes.rename, insert_map hr]
    rfl
  | state => rfl
  | result h =>
    -- two identities are equal exactly when their names are
    have hplanner : q h.command.planner ≠ q planner ↔ h.command.planner ≠ planner := not_congr hq.eq_iff
    simp only [noteArg, Value.rename, hplanner]
    split
    · rfl
    · split <;> rfl

theorem noteArgs_rename (hr : Function.Injective r) (hq : Function.Injective q) (planner i : Nat) :
    ∀ (vs : List Value) (l : Lifetimes),
      noteArgs (q planner) i (l.rename r) (vs.map (Value.rename r q)) = (noteArgs planner i l vs).map (Lifetimes.rename r)
  | [], _ => rfl
  | v :: vs, l => by
    rw [List.map_cons, noteArgs, noteArgs, noteArg_rename hr hq]
    cases noteArg planner i l v with
    | error e => rfl
    | ok l' => exact noteArgs_rename hr hq planner i vs l'

theorem noteCommands_rename (hr : Function.Injective r) (hq : Function.Injective q) (planner : Nat) :
    ∀ (cs : List Command) (i : Nat) (l : Lifetimes),
      noteCommands (q planner) i (l.rename r) (cs.map (Command.rename r q)) =
        (noteCommands planner i l cs).map (Lifetimes.rename r)
  | [], _, _ => rfl
  | c :: cs, i, l => by
    rw [List.map_cons, noteCommands, noteCommands, Command.rename, noteArgs_rename hr hq]
    cases noteArgs planner i l c.call.args with
    | error e => rfl
    | ok l' => exact noteCommands_rename hr hq planner cs (i + 1) l'

/-- **The notes on renamed commands are the renamed notes.** -/
theorem analyze_rename (hr : Function.Injective r) (hq : Function.Injective q) (planner : Nat) (cs : List Command) :
    analyze (q planner) (cs.map (Command.rename r q)) = (analyze planner cs).map (Lifetimes.rename r) :=
  noteCommands_rename hr hq planner cs 0 {}

end Lifetimes

/-! ## Slots -/

theorem lookup_map_injective (hr : Function.Injective r) (a : Bytes) : ∀ l : List (Bytes × Nat),
    (l.map (Prod.map r id)).lookup (r a) = l.lookup a
  | [] => rfl
  | (b, n) :: l => by
    have ih := lookup_map_injective hr a l
    by_cases h : a = b
    · simp [h]
    · have hne : r a ≠ r b := fun he => h (hr he)
      simp only [List.map_cons, Prod.map_apply, List.lookup_cons, beq_eq_false_iff_ne.2 h, beq_eq_false_iff_ne.2 hne, ih]

namespace Slots

theorem ofLiterals_rename (lits : List (Bytes × Nat)) :
    ofLiterals (lits.map (Prod.map r id)) = (ofLiterals lits).rename r lits.length := by
  have htable : renameTable r lits.length (lits.map Prod.fst) = (lits.map (Prod.map r id)).map Prod.fst := by
    have := renameTable_length (r := r) (lits.map Prod.fst)
    rw [List.length_map] at this
    rw [this, List.map_map, List.map_map]
    rfl
  simp [ofLiterals, Slots.rename, htable, List.zipIdx_map, Function.comp_def]

theorem slotOf?_rename (hr : Function.Injective r) (s : Slots) (k : Nat) (v : Value) :
    (s.rename r k).slotOf? (v.rename r q) = s.slotOf? v := by
  cases v with
  | literal ty bs => exact lookup_map_injective hr bs s.literalSlots
  | result h => rfl
  | state => rfl

theorem operand_rename (hr : Function.Injective r) (s : Slots) (k i pos : Nat) (v : Value) :
    (s.rename r k).operand i pos (v.rename r q) = s.operand i pos v := by
  have hslot := slotOf?_rename (q := q) hr s k v
  have hdyn := Value.isDynamic_rename (r := r) (q := q) v
  cases v with
  | state => rfl
  | literal ty bs => simp only [operand, Value.rename] at hslot hdyn ⊢; rw [hslot, hdyn]
  | result h => simp only [operand, Value.rename] at hslot hdyn ⊢; rw [hslot, hdyn]

theorem operands_rename (hr : Function.Injective r) (s : Slots) (k i : Nat) : ∀ (vs : List Value) (pos : Nat),
    (s.rename r k).operands i pos (vs.map (Value.rename r q)) = s.operands i pos vs
  | [], _ => rfl
  | v :: vs, pos => by rw [List.map_cons, operands, operands, operand_rename hr, operands_rename hr s k i vs (pos + 1)]

theorem take_rename (s : Slots) {k : Nat} (hk : k ≤ s.table.length) (i : Nat) :
    (s.rename r k).take i = (s.take i).map (Prod.map id (Slots.rename r k)) := by
  have hfree : (s.rename r k).free = s.free := rfl
  unfold take
  rw [hfree]
  cases s.free with
  | cons n rest => rfl
  | nil =>
    have hlen : (s.rename r k).table.length = s.table.length := length_renameTable k s.table
    simp only [grow, hlen]
    split
    · -- the new slot comes behind the literals, so it is not renamed
      have htable : (s.rename r k).table ++ [[]] = renameTable r k (s.table ++ [[]]) :=
        (renameTable_append hk [[]]).symm
      rw [htable]
      rfl
    · rfl

theorem placeResult_rename (s : Slots) {k : Nat} (hk : k ≤ s.table.length) (l : Lifetimes) (i : Nat) (c : Command) :
    (s.rename r k).placeResult (l.rename r) i (c.rename r q) = (s.placeResult l i c).map (Prod.map id (Slots.rename r k)) := by
  have hresults : (l.rename r).results = l.results := rfl
  have hrep : (c.rename r q).replacesState = c.replacesState := rfl
  unfold placeResult
  rw [hresults, hrep, take_rename s hk]
  cases l.results.lookup i with
  | none => rfl
  | some last =>
    cases c.replacesState with
    | true => rfl
    | false => cases s.take i <;> rfl

theorem assemble_rename (hr : Function.Injective r) (s : Slots) {k : Nat} (hk : k ≤ s.table.length) (l : Lifetimes) (i : Nat)
    (c : Command) :
    (s.rename r k).assemble (l.rename r) i (c.rename r q) = (s.assemble l i c).map (Prod.map id (Slots.rename r k)) := by
  have hargs : (c.rename r q).call.args = c.call.args.map (Value.rename r q) := rfl
  have hrelease : (s.rename r k).release i = (s.release i).rename r k := rfl
  have hk' : k ≤ (s.release i).table.length := hk
  unfold assemble
  rw [hargs, List.length_map, operands_rename hr, hrelease, placeResult_rename (s.release i) hk']
  split
  · rfl
  · cases s.operands i 0 c.call.args with
    | error e => rfl
    | ok bs => cases (s.release i).placeResult l i c <;> rfl

theorem length_le_of_take {s s' : Slots} {i n : Nat} (h : s.take i = .ok (n, s')) : s.table.length ≤ s'.table.length := by
  rcases take_cases s i with ⟨a, rest, -, he⟩ | ⟨-, -, he⟩ | ⟨-, -, he⟩ <;> rw [he] at h
  · cases h
    exact Nat.le_refl _
  · cases h
    simp
  · cases h

theorem length_le_of_placeResult {s s' : Slots} {l : Lifetimes} {i : Nat} {c : Command} {b : UInt8}
    (h : s.placeResult l i c = .ok (b, s')) : s.table.length ≤ s'.table.length := by
  rcases placeResult_cases s l i c with ⟨-, he⟩ | ⟨last, -, ⟨-, he⟩ | ⟨-, ⟨e, -, he⟩ | ⟨n, s₁, ht, he⟩⟩⟩ <;> rw [he] at h
  · cases h
    exact Nat.le_refl _
  · cases h
  · cases h
  · cases h
    have hle : s.table.length ≤ s₁.table.length := length_le_of_take ht
    exact hle

theorem length_le_of_assemble {s s' : Slots} {l : Lifetimes} {i : Nat} {c : Command} {ins : Instruction}
    (h : s.assemble l i c = .ok (ins, s')) : s.table.length ≤ s'.table.length := by
  unfold assemble at h
  split at h
  · cases h
  · cases hops : s.operands i 0 c.call.args with
    | error e => simp [hops] at h
    | ok bs =>
      cases hp : (s.release i).placeResult l i c with
      | error e => simp [hops, hp] at h
      | ok res =>
        have hs : res.2 = s' := by
          simp only [hops, hp, Except.ok.injEq, Prod.mk.injEq] at h
          exact h.2
        have hle : (s.release i).table.length ≤ res.2.table.length := length_le_of_placeResult hp
        rw [← hs]
        exact hle

/-- **Giving out slots to renamed commands gives the same instructions, and the renamed slots.** -/
theorem assembleAll_rename (hr : Function.Injective r) (l : Lifetimes) (k : Nat) :
    ∀ (cs : List Command) (i : Nat) (s : Slots), k ≤ s.table.length →
      (s.rename r k).assembleAll (l.rename r) i (cs.map (Command.rename r q)) =
        (s.assembleAll l i cs).map (Prod.map id (Slots.rename r k))
  | [], _, _, _ => rfl
  | c :: cs, i, s, hk => by
    rw [List.map_cons, assembleAll, assembleAll, assemble_rename hr s hk]
    cases ha : s.assemble l i c with
    | error e => rfl
    | ok res =>
      obtain ⟨ins, s₁⟩ := res
      have ih := assembleAll_rename hr l k cs (i + 1) s₁ (Nat.le_trans hk (length_le_of_assemble ha))
      dsimp only [Except.map, Prod.map]
      rw [ih]
      cases s₁.assembleAll l (i + 1) cs <;> rfl

end Slots

/-! ## Plans -/

theorem Lifetimes.compile_rename (hr : Function.Injective r) (l : Lifetimes) (cs : List Command) :
    (l.rename r).compile (cs.map (Command.rename r q)) = (l.compile cs).map (Program.rename r l.literals.length) := by
  have hlits : (l.rename r).literals = l.literals.map (Prod.map r id) := rfl
  unfold compile
  rw [hlits, Slots.addLiterals_eq, Slots.addLiterals_eq, List.length_map, Slots.ofLiterals_rename]
  by_cases hlen : l.literals.length ≤ maxSlots
  · have htable : l.literals.length ≤ (Slots.ofLiterals l.literals).table.length := by simp [Slots.ofLiterals]
    rw [if_pos hlen, if_pos hlen]
    dsimp only
    rw [Slots.assembleAll_rename hr l _ cs 0 _ htable]
    cases (Slots.ofLiterals l.literals).assembleAll l 0 cs <;> rfl
  · rw [if_neg hlen, if_neg hlen]
    rfl

/-- **The plan of a renamed planner is the renamed plan.** -/
theorem Planner.plan_rename_eq (hr : Function.Injective r) (hq : Function.Injective q) (p : Planner) :
    (p.rename r q).plan = p.plan.map (Program.rename r (literalsOf p.commands).length) := by
  have hanalyze : Lifetimes.analyze (p.rename r q).id (p.rename r q).commands =
      (Lifetimes.analyze p.id p.commands).map (Lifetimes.rename r) := Lifetimes.analyze_rename hr hq p.id p.commands
  unfold Planner.plan
  rw [hanalyze]
  cases hl : Lifetimes.analyze p.id p.commands with
  | error e => rfl
  | ok l =>
    have hlits : l.literals.length = (literalsOf p.commands).length := by
      rw [← (Lifetimes.analyze_ok hl).2.literals_eq, List.length_map]
    rw [← hlits]
    exact Lifetimes.compile_rename hr l p.commands

end

/-- **A plan knows literals and planners only by which of them are equal.**  Rename every literal and every identity, different
ones differently: a plan that is refused is refused with the same error, and else the instructions are the same and in the
table the literals are renamed, with the empty slots behind them as they were. -/
theorem Planner.plan_rename (r : Bytes → Bytes) (q : Nat → Nat) (hr : Function.Injective r) (hq : Function.Injective q)
    (p : Planner) :
    (∀ e, p.plan = .error e → (p.rename r q).plan = .error e) ∧
    ∀ prog, p.plan = .ok prog → ∃ d, prog.state = literalsOf p.commands ++ List.replicate d [] ∧
      (p.rename r q).plan = .ok ⟨prog.instructions, (literalsOf p.commands).map r ++ List.replicate d []⟩ := by
  have hplan := p.plan_rename_eq hr hq
  refine ⟨fun e he => ?_, fun prog hp => ?_⟩
  · rw [hplan, he]
    rfl
  · obtain ⟨-, l, st, hplanned⟩ := plan_ok hp
    obtain ⟨d, hd⟩ := hplanned.state_eq
    have htable : renameTable r (literalsOf p.commands).length prog.state =
        (literalsOf p.commands).map r ++ List.replicate d [] := by
      rw [hd, renameTable_append (Nat.le_refl _), renameTable_length]
    refine ⟨d, hd, ?_⟩
    rw [hplan, hp, ← htable]
    rfl

/-! ## An empty literal

The answer needs a slot behind that of the literal.  Swapping the literal with the empty bytes leaves that slot alone. -/

def getFunction : Function := ⟨"get", [], [⟨"", .uint 256⟩]⟩

def storedAnswer : Planner where
  id := 0
  commands :=
    [⟨⟨Block.fill 20 0xEE, getFunction, []⟩, false⟩,
      ⟨⟨Block.fill 20 0xEE, storeFunction, [.result ⟨.uint 256, ⟨0, 0⟩⟩, .literal .bytes [1]]⟩, false⟩]

theorem plan_storedAnswer :
    storedAnswer.plan = .ok
      ⟨[⟨getFunction.selector, Instruction.operandBlock [], 1, Block.fill 20 0xEE⟩,
        ⟨storeFunction.selector, Instruction.operandBlock [1, 0x80], 0xFF, Block.fill 20 0xEE⟩], [[1], []]⟩ := rfl

theorem Planner.plan_rename_storedAnswer :
    ∃ prog, storedAnswer.plan = .ok prog ∧ prog.state = [[1], []] ∧
      (storedAnswer.rename (Equiv.swap [1] []) (· + 7)).plan = .ok ⟨prog.instructions, [[], []]⟩ := by
  have hshift : Function.Injective (fun id : Nat => id + 7) := fun _ _ h => Nat.add_right_cancel h
  obtain ⟨-, hok⟩ := Planner.plan_rename (Equiv.swap [1] []) (· + 7) (Equiv.injective _) hshift storedAnswer
  obtain ⟨d, hd, hplan⟩ := hok _ plan_storedAnswer
  have hlits : literalsOf storedAnswer.commands = [[1]] := rfl
  rw [hlits] at hd hplan
  have hrep : List.replicate d [] = [[]] := (List.cons.inj hd).2.symm
  rw [hrep, List.map_singleton, Equiv.swap_apply_left] at hplan
  exact ⟨_, plan_storedAnswer, rfl, hplan⟩

end CallPlan
