import CallPlan.Proofs.Calls
import CallPlan.Proofs.Drafts
/-!
# From the arguments of a script to the slots of its program

What a script writes as an argument is what the instruction finds when it runs (`build_plan_passes`): a reference finds the
answer to the call of the command that bears the id, a concrete value its encoding.
-/
namespace CallPlan

open Slots (Held)

/-! ## What a slot holds -/

/-- **The slot holds the value when the instruction at `i` is about to run**, in every world. -/
def Program.HoldsAt (prog : Program) (i n : Nat) (x : Source) : Prop :=
  ∀ w, ∃ table calls bs, prog.tableAt w i = some table ∧ prog.calls w = some calls ∧
    x.value? (calls.map w) = some bs ∧ table[n]? = some bs

theorem directCallsFrom_take {w : World} : ∀ {cs : List Command} {answers : List Bytes} {calls : List CallMade} (i : Nat),
    directCallsFrom w answers cs = some calls → directCallsFrom w answers (cs.take i) = some (calls.take i)
  | _, _, _, 0, _ => by simp [directCallsFrom]
  | [], _, _, i + 1, h => by cases h; rfl
  | c :: cs, answers, calls, i + 1, h => by
    rw [List.take_succ_cons]
    unfold directCallsFrom at h ⊢
    cases hd : Value.data? answers c.call.args with
    | none => simp [hd] at h
    | some args =>
      simp only [hd, Option.map_eq_some_iff] at h ⊢
      obtain ⟨calls', h', rfl⟩ := h
      exact ⟨_, directCallsFrom_take i h', rfl⟩

section
variable {cs : List Command} {l : Lifetimes} {st : Nat → Slots} {prog : Program} {i k : Nat} {ins : Instruction}

theorem Planned.holdsAt (h : Planned cs l st prog) (hi : i ≤ cs.length) {x : Source} {last n : Nat}
    (hx : Held l i i (st i) x last n) : prog.HoldsAt i n x := by
  intro w
  obtain ⟨table, calls, htable, -, -, hdirect, -, hh⟩ := h.simulation w i hi
  obtain ⟨-, all, -, -, hall, hdirectAll, -, -⟩ := h.simulation w cs.length (Nat.le_refl _)
  rw [← h.length_eq, List.take_length] at hall
  rw [List.take_length] at hdirectAll
  -- the calls so far are the first ones of all calls
  have hprefix : calls = all.take i := Option.some.inj (hdirect.symm.trans (directCallsFrom_take i hdirectAll))
  obtain ⟨bs, hbs, hn⟩ := hh x last n hx
  refine ⟨table, all, bs, htable, hall, ?_, hn⟩
  rw [← List.take_append_drop i all, List.map_append, ← hprefix]
  exact Source.value?_append hbs

/-- **An operand names a slot that holds what its argument stands for.** -/
theorem Planned.operand_holdsAt (h : Planned cs l st prog) (hins : prog.instructions[i]? = some ins) {v : Value}
    {x : Source} (hv : argAt? cs i k = some v) (hx : v.source? = some x) :
    ∃ byte n, ins.operands.bytes[k]? = some byte ∧ SlotRef.ofByte byte = .slot n v.isDynamic ∧
      prog.HoldsAt i n.toNat x ∧ prog.Keeps cs x n.toNat := by
  obtain ⟨last, n, hheld, hn, hbyte⟩ := h.operand hins hv hx
  have hi := Nat.le_of_lt (reads_of_argAt? hv hx).lt_length
  have hmax : n < maxSlots := Nat.lt_of_lt_of_le hn h.length_state_le
  refine ⟨_, .ofNat n, hbyte, SlotRef.ofByte_slot hmax _, ?_, ?_⟩
  · rw [SlotRef.toNat_ofNat_slot hmax]
    exact h.holdsAt hi hheld
  · rw [SlotRef.toNat_ofNat_slot hmax]
    exact h.keeps_iff.2 (h.slot?_held hi hheld)

/-- **The byte of a result that is kept carries the flag of the output's type.** -/
theorem Planned.ofByte_result (h : Planned cs l st prog) {c : Command} {n : UInt8} (hc : cs[i]? = some c)
    (hkeeps : prog.Keeps cs (.result i) n.toNat) :
    ∃ ins, prog.instructions[i]? = some ins ∧ SlotRef.ofByte ins.result = .slot n c.call.outputIsDynamic := by
  obtain ⟨ins, hins, hn⟩ := hkeeps
  obtain ⟨last, hheld, -⟩ := h.result_of_index? hins hn
  obtain ⟨n', hheld', hlt, hresult, -⟩ := h.result hins hc hheld.2.1
  have hn' : n' = n.toNat := Option.some.inj (hheld'.2.2.2.symm.trans hheld.2.2.2)
  refine ⟨ins, hins, ?_⟩
  rw [hresult, SlotRef.ofByte_slot (Nat.lt_of_lt_of_le hlt h.length_state_le), hn', UInt8.ofNat_toNat]

end

/-! ## What an argument becomes -/

/-- **An operand byte passes an argument to the instruction at `i`.**  A reference is to the only command with that id, an
earlier one with a single output of the parameter's type; the byte and that command's result byte agree in slot and flag. -/
def Script.Passes (s : Script) (contracts : List (String × Contract)) (prog : Program) (i : Nat) (ty : AbiType) (j : Json)
    (byte : UInt8) : Prop :=
  match j.argForm with
  | .ref id   => ∃ i' spec b out ins n, i' < i ∧ Names s.commands id i' ∧ (∀ i'', Names s.commands id i'' → i'' = i') ∧
      s.commands[i']? = some spec ∧ spec.Calls contracts b ∧ b.function.outputs = [out] ∧ out.kind = ty ∧
      prog.instructions[i']? = some ins ∧ SlotRef.ofByte ins.result = .slot n ty.isDynamic ∧
      SlotRef.ofByte byte = .slot n ty.isDynamic ∧ prog.HoldsAt i n.toNat (.result i')
  | .state    => byte = 0xFE
  | .concrete => ∃ t bs n, Token.ofJson ty j = .ok t ∧ encodeLiteral ty t = .ok bs ∧
      SlotRef.ofByte byte = .slot n ty.isDynamic ∧ prog.HoldsAt i n.toNat (.literal bs)

section
variable {contracts : List (String × Contract)} {handles : List (String × Handle)} {s : Script} {p : Planner} {l : Lifetimes}
  {st : Nat → Slots} {prog : Program} {i k : Nat} {ins : Instruction}

/-- **Drafting and planning together pass each argument on.** -/
theorem Drafted.passes (hd : Drafted contracts s.commands ⟨p, handles⟩) (hp : Planned p.commands l st prog)
    (hins : prog.instructions[i]? = some ins) {v : Value} {ty : AbiType} {j : Json}
    (hv : argAt? p.commands i k = some v) (hw : Written handles i ty j v) :
    ∃ byte, ins.operands.bytes[k]? = some byte ∧ s.Passes contracts prog i ty j byte := by
  unfold Script.Passes
  cases hw with
  | ref form found earlier kind_eq =>
    rename_i id r
    rw [form]
    obtain ⟨byte, n, hbyte, hslot, hholds, hkeeps⟩ := hp.operand_holdsAt hins hv rfl
    obtain ⟨hnames, -, c, out, hc, -, hout, hkind⟩ := hd.denotes id r found
    obtain ⟨ins', hins', hresult⟩ := hp.ofByte_result hc hkeeps
    have hnamed := hnames
    obtain ⟨spec, hspec, -⟩ := hnamed
    obtain ⟨c', b, hc', hb⟩ := hd.renders _ spec hspec
    rw [show p.commands[r.command.index]? = some c from hc] at hc'
    cases hc'
    have hty : out.kind = ty := hkind.symm.trans kind_eq
    have hflag : c.call.outputIsDynamic = ty.isDynamic := by rw [Call.outputIsDynamic, hout, ← hty]
    have hflag' : (Value.result r).isDynamic = ty.isDynamic := congrArg AbiType.isDynamic kind_eq
    rw [hflag] at hresult
    rw [hflag'] at hslot
    exact ⟨byte, hbyte, r.command.index, spec, b, out, ins', n, earlier, hnames,
      fun i'' hi => hd.names_unique hi hnames, hspec, hb.calls, hb.function_eq ▸ hout, hty, hins', hresult, hslot, hholds⟩
  | state form =>
    rw [form]
    exact ⟨_, hp.operand_byte hins hv, rfl⟩
  | literal form read encoded =>
    rw [form]
    obtain ⟨byte, n, hbyte, hslot, hholds, -⟩ := hp.operand_holdsAt hins hv rfl
    exact ⟨byte, hbyte, _, _, n, read, encoded, hslot, hholds⟩

end

/-- **The program of a script hands every call what the script writes.**  Each command has one instruction, with the address
and selector of the function that it calls, and each argument an operand byte that passes it on. -/
theorem build_plan_passes (read : ReadFile) (base : String) (s : Script) (p : Planner) (prog : Program)
    (hbuild : s.build read base = .ok p) (hplan : p.plan = .ok prog) :
    ∃ contracts, Script.bind read base s.contracts = .ok contracts ∧
      prog.instructions.length = s.commands.length ∧
      ∀ (i : Nat) (spec : CommandSpec), s.commands[i]? = some spec →
        ∃ b ins, spec.Calls contracts b ∧ prog.instructions[i]? = some ins ∧ ins.address = b.address ∧
          ins.selector = b.function.selector ∧ spec.args.length = b.function.inputs.length ∧
          ∀ (k : Nat) (j : Json), spec.args[k]? = some j → ∃ param byte, b.function.inputs[k]? = some param ∧
            ins.operands.bytes[k]? = some byte ∧ s.Passes contracts prog i param.kind j byte := by
  obtain ⟨contracts, handles, hbind, hd⟩ := build_ok hbuild
  obtain ⟨-, l, st, hp⟩ := plan_ok hplan
  refine ⟨contracts, hbind, hp.length_eq.trans hd.length_eq, fun i spec hspec => ?_⟩
  obtain ⟨c, b, hc, hb⟩ := hd.renders i spec hspec
  obtain ⟨ins, hins, haddress, hselector⟩ := hp.instruction hc
  have hselector' : ins.selector = b.function.selector := by rw [hselector, Call.selector, hb.function_eq]
  refine ⟨b, ins, hb.calls, hins, haddress.trans hb.address_eq, hselector', hb.arity, fun k j hj => ?_⟩
  have hk : k < b.function.inputs.length := hb.arity ▸ (List.getElem?_eq_some_iff.1 hj).1
  have hparam : b.function.inputs[k]? = some (b.function.inputs.get ⟨k, hk⟩) := List.getElem?_eq_getElem hk
  obtain ⟨v, hv, hw⟩ := hb.args k j _ hj hparam
  obtain ⟨byte, hbyte, hpass⟩ := hd.passes hp hins (argAt?_eq_some_iff.2 ⟨c, hc, hv⟩) hw
  exact ⟨_, byte, hparam, hbyte, hpass⟩

/-! ## A small script -/

/-- The script of `sum = 1 + 2` and `sum + 3`. -/
def sumScript : Script where
  contracts := [("math", ⟨Block.fill 20 0xEE, .inline [.string "function add(uint256,uint256) returns (uint256)"]⟩)]
  commands :=
    [⟨some "sum", "math.add", [.number (.integer 1), .number (.integer 2)], false⟩,
      ⟨none, "math.add", [.object [("ref", .string "sum")], .number (.integer 3)], false⟩]

def sumPlanner : Planner where
  id := 0
  commands :=
    [⟨⟨Block.fill 20 0xEE, addFunction,
        [.literal (.uint 256) (Word.ofNat 1).bytes, .literal (.uint 256) (Word.ofNat 2).bytes]⟩, false⟩,
      ⟨⟨Block.fill 20 0xEE, addFunction,
        [.result ⟨.uint 256, ⟨0, 0⟩⟩, .literal (.uint 256) (Word.ofNat 3).bytes]⟩, false⟩]

theorem build_sumScript : sumScript.build (fun _ => .ok "") "" = .ok sumPlanner := by decide +kernel

theorem plan_sumPlanner :
    sumPlanner.plan = .ok
      ⟨[⟨addFunction.selector, Instruction.operandBlock [0, 1], 0, Block.fill 20 0xEE⟩,
        ⟨addFunction.selector, Instruction.operandBlock [0, 2], 0xFF, Block.fill 20 0xEE⟩],
        [(Word.ofNat 1).bytes, (Word.ofNat 2).bytes, (Word.ofNat 3).bytes]⟩ := rfl

theorem passes_sumScript :
    sumScript.build (fun _ => .ok "") "" = .ok sumPlanner ∧ ∃ prog, sumPlanner.plan = .ok prog ∧
      ∃ ins byte n d, prog.instructions[1]? = some ins ∧ ins.operands.bytes[0]? = some byte ∧
        SlotRef.ofByte byte = .slot n d ∧ prog.HoldsAt 1 n.toNat (.result 0) := by
  refine ⟨build_sumScript, _, plan_sumPlanner, ?_⟩
  obtain ⟨contracts, -, -, hall⟩ := build_plan_passes _ _ sumScript sumPlanner _ build_sumScript plan_sumPlanner
  obtain ⟨b, ins, -, hins, -, -, -, hargs⟩ := hall 1 _ rfl
  obtain ⟨param, byte, -, hbyte, hpass⟩ := hargs 0 _ rfl
  obtain ⟨i', -, -, -, -, n, hlt, -, -, -, -, -, -, -, -, hslot, hholds⟩ := hpass
  cases Nat.lt_one_iff.1 hlt
  exact ⟨ins, byte, n, _, hins, hbyte, hslot, hholds⟩

end CallPlan
