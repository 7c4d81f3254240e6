import CallPlan.Proofs.DataFlow
import CallPlan.Proofs.History
/-!
# What a handle names

A handle is given out for a call with a single output, and names it by an identity and a position.  Copies of a planner share
the identity but not what they append after the copy is made, so that a handle passed between them can name another command.
`plan_handles_declared` says when a handle that is read still names a single output of its type: when the planner knows it, that
is has given it out or is a copy of one that had, which is so unless copies pass handles to each other.
-/
namespace CallPlan

open Session (after)

/-- **The planner at `k` has given out the handle for the call.** -/
inductive Gave : List Event → Nat → Call → Handle → Prop
  | now {es : List Event} {k : Nat} {call : Call} {h : Handle}
      (answer : ((after es).perform (.add k call)).2 = .handle (some h)) : Gave (es ++ [.add k call]) k call h
  | before {es : List Event} {k : Nat} {call : Call} {h : Handle} {e : Event} (gave : Gave es k call h) :
      Gave (es ++ [e]) k call h

/-- **The planner at `k` has given out the handle, or is a copy of one that had when the copy was made.** -/
inductive Knows : List Event → Nat → Handle → Prop
  | gave {es : List Event} {k : Nat} {call : Call} {h : Handle} (gave : Gave es k call h) : Knows es k h
  | copied {es : List Event} {j k : Nat} {h : Handle} (knows : Knows es j h)
      (answer : ((after es).perform (.clone j)).2 = .planner k) : Knows (es ++ [.clone j]) k h
  | later {es : List Event} {k : Nat} {h : Handle} {e : Event} (knows : Knows es k h) : Knows (es ++ [e]) k h

/-- **Every result that is passed was given out earlier**, by some planner. -/
def HandlesGiven : List Event → Prop := EachPass fun pre _ h => ∃ j call, Gave pre j call h

/-- **Among planners of one identity, a result is passed only to those that know it.** -/
def HandlesKept : List Event → Prop :=
  EachPass fun pre k h => ∀ p, (after pre).get? k = some p → h.command.planner = p.id → Knows pre k h

/-- **The handle names a command of the planner with a single output, of the handle's type.** -/
def Planner.Declares (p : Planner) (h : Handle) : Prop :=
  h.command.planner = p.id ∧ ∃ c, p.commands[h.command.index]? = some c ∧ c.call.function.outputTypes = [h.kind]

/-! ## Planners that know a handle -/

section
variable {es : List Event} {k : Nat} {call : Call} {h : Handle} {p p' : Planner} {c : Command}

theorem Planner.Declares.mono (hd : p.Declares h) (hid : p'.id = p.id) (hcommands : p.commands <+: p'.commands) :
    p'.Declares h := by
  obtain ⟨hplanner, c, hc, hout⟩ := hd
  exact ⟨hplanner.trans hid.symm, c, getElem?_of_isPrefix hcommands hc, hout⟩

theorem Session.perform_add_handle {s : Session} (ha : (s.perform (.add k call)).2 = .handle (some h)) :
    ∃ p, s.get? k = some p ∧ p.handleTo call = some h ∧
      (s.perform (.add k call)).1.get? k = some (p.concat ⟨call, false⟩) := by
  have hcommand : (Event.add k call).command? = some (k, ⟨call, false⟩) := rfl
  cases hp : s.get? k with
  | none =>
    rw [perform_command_missing hcommand hp] at ha
    cases ha
  | some p =>
    rw [perform_command hcommand hp] at ha ⊢
    cases hwhy : p.refusal? ⟨call, false⟩ with
    | some err => simp [hwhy] at ha
    | none =>
      simp only [hwhy, Planner.answerTo, Bool.false_eq_true, if_false, Answer.handle.injEq] at ha ⊢
      exact ⟨p, rfl, ha, by rw [get?_set hp, if_pos rfl]⟩

theorem exists_declares_concat (e : Event) (hp : ∃ p, (after es).get? k = some p ∧ p.Declares h) :
    ∃ p, (after (es ++ [e])).get? k = some p ∧ p.Declares h := by
  obtain ⟨p, hp, hd⟩ := hp
  obtain ⟨p', hp', hid, hcommands⟩ := (Session.perform_moved _ e).grows hp
  rw [Session.after_concat]
  exact ⟨p', hp', hd.mono hid hcommands⟩

theorem Gave.outputTypes_eq (hg : Gave es k call h) : call.function.outputTypes = [h.kind] := by
  induction hg with
  | now answer =>
    obtain ⟨p, -, hh, -⟩ := Session.perform_add_handle answer
    obtain ⟨out, hout, rfl⟩ := Planner.handleTo_eq_some hh
    rw [Function.outputTypes, hout]
    rfl
  | before _ ih => exact ih

theorem Gave.exists_declares (hg : Gave es k call h) : ∃ p, (after es).get? k = some p ∧ p.Declares h := by
  induction hg with
  | now answer =>
    rename_i es k call h
    have hout := (Gave.now answer).outputTypes_eq
    obtain ⟨p, -, hh, hp⟩ := Session.perform_add_handle answer
    obtain ⟨out, -, rfl⟩ := Planner.handleTo_eq_some hh
    rw [Session.after_concat]
    exact ⟨_, hp, rfl, ⟨call, false⟩, getElem?_concat_eq_some_iff.2 (.inr ⟨rfl, rfl⟩), hout⟩
  | before _ ih => exact exists_declares_concat _ ih

/-- **A planner that knows a handle has the command that it names.** -/
theorem Knows.exists_declares (hk : Knows es k h) : ∃ p, (after es).get? k = some p ∧ p.Declares h := by
  induction hk with
  | gave hg => exact hg.exists_declares
  | copied knows answer ih =>
    rename_i es j k h
    obtain ⟨p, hp, hd⟩ := ih
    -- the copy stands at the end and has the same commands
    have hclone : (after es).perform (.clone j) =
        (⟨(after es).planners ++ [p], (after es).nextId⟩, .planner (after es).planners.length) := by
      simp [Session.perform, Session.clone, hp]
    rw [hclone] at answer
    cases answer
    refine ⟨p, ?_, hd⟩
    rw [Session.after_concat, hclone]
    exact getElem?_concat_eq_some_iff.2 (.inr ⟨rfl, rfl⟩)
  | later _ ih => exact exists_declares_concat _ ih

end

/-! ## Arguments of a history -/

section
variable {es : List Event} {k : Nat} {h : Handle} {p : Planner}

/-- **The results that a planner reads.** -/
def Planner.ReadsHandle (p : Planner) (h : Handle) : Prop := ∃ c ∈ p.commands, .result h ∈ c.call.args

theorem Planner.readsHandle_concat {c : Command} :
    (p.concat c).ReadsHandle h ↔ p.ReadsHandle h ∨ .result h ∈ c.call.args := by
  simp [ReadsHandle, concat, or_and_right, exists_or]

/-- **Where results are kept among planners that know them, a planner knows what it reads.** -/
theorem HandlesKept.knows (hkept : HandlesKept es) (hp : (after es).get? k = some p) (hr : p.ReadsHandle h) :
    Knows es k h := by
  induction es using List.reverseRecOn generalizing k p with
  | nil => cases hp
  | append_singleton es e ih =>
    obtain ⟨hes, he⟩ := eachPass_concat.1 hkept
    rw [Session.after_concat] at hp
    rcases (Session.perform_moved _ e).get?_cases hp with hp | rfl | ⟨j, rfl, hanswer, hj⟩ | ⟨q, c, hcommand, hq, haccepted, rfl⟩
    · exact .later (ih hes hp hr)
    · obtain ⟨c, hc, -⟩ := hr
      cases hc
    · exact .copied (ih hes hj hr) hanswer
    · rcases Planner.readsHandle_concat.1 hr with hr | hmem
      · exact .later (ih hes hq hr)
      · have hown := (Planner.refusal?_eq_none_iff.1 haccepted).2 h hmem
        exact .later (he k h ⟨c, hcommand, hmem⟩ q hq hown)

/-- **Without copies every result is kept**: its planner is the only one of its identity. -/
theorem HandlesGiven.kept (hgiven : HandlesGiven es) (hclone : ∀ j, .clone j ∉ es) : HandlesKept es := by
  intro pre e post k h hes hpass p hp hown
  obtain ⟨j, call, hg⟩ := hgiven pre e post k h hes hpass
  obtain ⟨q, hq, hid, -⟩ := hg.exists_declares
  have hpre : ∀ j, .clone j ∉ pre := fun j hj => hclone j (by rw [hes]; exact List.mem_append_left _ hj)
  obtain rfl : j = k := (Session.distinct_after hpre).eq_of_id_eq hq hp (hid.symm.trans hown)
  exact .gave hg

end

/-! ## Handles in a plan -/

theorem Call.outputIsDynamic_of_outputTypes_eq {call : Call} {ty : AbiType} (h : call.function.outputTypes = [ty]) :
    call.outputIsDynamic = ty.isDynamic := by
  obtain ⟨out, hout, rfl⟩ := List.map_eq_singleton_iff.1 h
  rw [outputIsDynamic, hout]

/-- **When the results that a plan reads are single outputs of their type.**  A result names an earlier command of the planner,
and both sides name one slot, each with the flag of its own type.  If the planner knows the handle, the command has a single
output of the handle's type, so both flags agree; and it knows every handle that it reads when results are kept among planners
that know them, as they are when no planner is copied. -/
theorem plan_handles_declared (es : List Event) (hgiven : HandlesGiven es) (k : Nat) (p : Planner) (prog : Program)
    (hp : (after es).get? k = some p) (hplan : p.plan = .ok prog) :
    ∀ (i m : Nat) (h : Handle), argAt? p.commands i m = some (.result h) →
      ∃ c ins ins' byte n, h.command.planner = p.id ∧ h.command.index < i ∧ p.commands[h.command.index]? = some c ∧
        prog.instructions[i]? = some ins ∧ ins.operands.bytes[m]? = some byte ∧
        SlotRef.ofByte byte = .slot n h.kind.isDynamic ∧
        prog.instructions[h.command.index]? = some ins' ∧ SlotRef.ofByte ins'.result = .slot n c.call.outputIsDynamic ∧
        (Knows es k h → c.call.function.outputTypes = [h.kind] ∧ c.call.outputIsDynamic = h.kind.isDynamic) ∧
        (HandlesKept es ∨ (∀ j, .clone j ∉ es) →
          Knows es k h ∧ c.call.function.outputTypes = [h.kind] ∧ c.call.outputIsDynamic = h.kind.isDynamic) := by
  intro i m h harg
  obtain ⟨c₀, hc₀, hm⟩ := argAt?_eq_some_iff.1 harg
  have hr : p.ReadsHandle h := ⟨c₀, List.mem_of_getElem? hc₀, List.mem_of_getElem? hm⟩
  obtain ⟨hreadable, l, st, hpl⟩ := plan_ok hplan
  -- an accepted plan has found the command earlier, in the same planner
  have hfault := hreadable.fault?_eq_none harg
  obtain ⟨hown, hlt⟩ : h.command.planner = p.id ∧ h.command.index < i := by
    simp only [Value.fault?] at hfault
    split_ifs at hfault with hne hle
    exact ⟨Classical.not_not.1 hne, Nat.lt_of_not_le hle⟩
  obtain ⟨ins, hins, -⟩ := hpl.instruction hc₀
  obtain ⟨byte, n, hbyte, hslot, -, hkeeps⟩ := hpl.operand_holdsAt hins harg rfl
  have hlt' : h.command.index < p.commands.length := Nat.lt_trans hlt (List.getElem?_eq_some_iff.1 hc₀).1
  have hc : p.commands[h.command.index]? = some (p.commands.get ⟨_, hlt'⟩) := List.getElem?_eq_getElem hlt'
  obtain ⟨ins', hins', hresult⟩ := hpl.ofByte_result hc hkeeps
  have hdeclared : Knows es k h → (p.commands.get ⟨_, hlt'⟩).call.function.outputTypes = [h.kind] ∧
      (p.commands.get ⟨_, hlt'⟩).call.outputIsDynamic = h.kind.isDynamic := by
    intro hknows
    obtain ⟨q, hq, -, c, hc', hout⟩ := hknows.exists_declares
    obtain rfl : p = q := Option.some.inj (hp.symm.trans hq)
    obtain rfl := Option.some.inj (hc.symm.trans hc')
    exact ⟨hout, Call.outputIsDynamic_of_outputTypes_eq hout⟩
  refine ⟨_, ins, ins', byte, n, hown, hlt, hc, hins, hbyte, hslot, hins', hresult, hdeclared, fun hkept => ?_⟩
  have hknows := (hkept.elim id hgiven.kept).knows hp hr
  exact ⟨hknows, hdeclared hknows⟩

/-! ## A sum and a copy

The planner at `0` adds `1 + 2`.  A copy that is made afterwards can double the sum.  A copy that was made before, and has
called something else in the meantime, takes the handle as well and reads what that call returned. -/

def onePlusTwo : Call := ⟨Block.fill 20 0xEE, addFunction, [.literal (.uint 256) [1], .literal (.uint 256) [2]]⟩

def sumHandle : Handle := ⟨.uint 256, ⟨0, 0⟩⟩

def twiceSum : Call := ⟨Block.fill 20 0xEE, addFunction, [.result sumHandle, .result sumHandle]⟩

def greet : Call := ⟨Block.fill 20 0xEE, ⟨"greet", [], [⟨"", .string⟩]⟩, []⟩

def copiedAfterSum : List Event := [.openNew, .add 0 onePlusTwo, .clone 0, .add 1 twiceSum]

def copiedBeforeSum : List Event := [.openNew, .clone 0, .add 0 onePlusTwo, .add 1 greet, .add 1 twiceSum]

theorem passes_twiceSum {j k : Nat} {h : Handle} (hp : (Event.add j twiceSum).Passes k h) : j = k ∧ h = sumHandle := by
  simpa [Event.Passes, Event.command?, twiceSum] using hp

theorem plan_handles_declared_copiedAfterSum :
    HandlesGiven copiedAfterSum ∧ HandlesKept copiedAfterSum ∧ (after copiedAfterSum).get? 1 = some doubledSum ∧
      argAt? doubledSum.commands 1 0 = some (.result sumHandle) ∧
      ∃ c, doubledSum.commands[0]? = some c ∧ c.call.function.outputTypes = [.uint 256] := by
  have hquiet : ∀ e ∈ [.openNew, .add 0 onePlusTwo, .clone 0], ∀ k h, ¬ Event.Passes e k h := by
    simp [Event.Passes, Event.command?, onePlusTwo]
  have hgave : Gave [.openNew, .add 0 onePlusTwo] 0 onePlusTwo sumHandle := @Gave.now [.openNew] _ _ _ rfl
  have hgiven : HandlesGiven copiedAfterSum := by
    refine eachPass_concat.2 ⟨.of_quiet hquiet, fun k h hp => ?_⟩
    obtain ⟨rfl, rfl⟩ := passes_twiceSum hp
    exact ⟨0, onePlusTwo, hgave.before⟩
  have hkept : HandlesKept copiedAfterSum := by
    refine eachPass_concat.2 ⟨.of_quiet hquiet, fun k h hp p _ _ => ?_⟩
    obtain ⟨rfl, rfl⟩ := passes_twiceSum hp
    exact .copied (.gave hgave) rfl
  have harg : argAt? doubledSum.commands 1 0 = some (.result sumHandle) := rfl
  obtain ⟨c, -, -, -, -, -, -, hc, -, -, -, -, -, -, hdeclared⟩ :=
    plan_handles_declared copiedAfterSum hgiven 1 doubledSum _ rfl plan_doubledSum 1 0 sumHandle harg
  exact ⟨hgiven, hkept, rfl, harg, c, hc, (hdeclared (.inl hkept)).2.1⟩

/-- **A handle that crosses between copies is read as something else**: the result of a call that returns a `string` is kept as
a blob and read as a word. -/
theorem plan_copiedBeforeSum :
    HandlesGiven copiedBeforeSum ∧
      ∃ p prog ins ins', (after copiedBeforeSum).get? 1 = some p ∧ p.plan = .ok prog ∧
        argAt? p.commands 1 0 = some (.result sumHandle) ∧ p.commands[sumHandle.command.index]? = some ⟨greet, false⟩ ∧
        greet.function.outputTypes ≠ [sumHandle.kind] ∧
        prog.instructions[0]? = some ins ∧ SlotRef.ofByte ins.result = .slot 0 true ∧
        prog.instructions[1]? = some ins' ∧ ins'.operands.bytes[0]? = some 0 ∧ SlotRef.ofByte 0 = .slot 0 false := by
  refine ⟨?_, ⟨0, [⟨greet, false⟩, ⟨twiceSum, false⟩]⟩,
    ⟨[⟨greet.selector, Instruction.operandBlock [], 0x80, Block.fill 20 0xEE⟩,
      ⟨addFunction.selector, Instruction.operandBlock [0, 0], 0xFF, Block.fill 20 0xEE⟩], [[]]⟩,
    _, _, rfl, rfl, rfl, rfl, by decide, rfl, rfl, rfl, rfl, rfl⟩
  have hquiet : ∀ e ∈ [.openNew, .clone 0, .add 0 onePlusTwo, .add 1 greet], ∀ k h, ¬ Event.Passes e k h := by
    simp [Event.Passes, Event.command?, onePlusTwo, greet]
  refine eachPass_concat.2 ⟨.of_quiet hquiet, fun k h hp => ?_⟩
  have hgave : Gave [.openNew, .clone 0, .add 0 onePlusTwo] 0 onePlusTwo sumHandle :=
    @Gave.now [.openNew, .clone 0] _ _ _ rfl
  obtain ⟨rfl, rfl⟩ := passes_twiceSum hp
  exact ⟨0, onePlusTwo, hgave.before⟩

end CallPlan
