import CallPlan.Proofs.DataFlow
import CallPlan.Proofs.Refusals
import CallPlan.Proofs.WellFormed
/-!
# Scripts fail on capacity only

A command of a script can refer to ids only, and an id stands for the result of an earlier command of the same planner that
does not replace the table.  So the arguments of a script that builds can all be read, and no command that replaces the table
has a reader.  What is left to refuse its plan is too many arguments in one call or too many values for the slots
(`build_plan_capacity`).
-/
namespace CallPlan

/-! ## Results among the arguments -/

section
variable {handles : List (String × Handle)} {b : BoundFunction} {h : Handle}

theorem BoundFunction.exists_of_mem_resolveFrom {v : Value} : ∀ {n : Nat} {ps : List Param} {as : List Arg} {vs : List Value},
    b.resolveFrom n ps as = .ok vs → v ∈ vs → ∃ m p, ∃ a ∈ as, b.resolve m p a = .ok v
  | _, [], _, _, hvs, hv => by
    cases hvs
    cases hv
  | _, _ :: _, [], _, hvs, hv => by
    cases hvs
    cases hv
  | n, p :: ps, a :: as, vs, hvs, hv => by
    unfold resolveFrom at hvs
    split at hvs
    · cases hvs
    · rename_i v' hv'
      split at hvs <;> cases hvs
      rename_i vs' hvs'
      rcases List.mem_cons.1 hv with rfl | hv
      · exact ⟨n, p, a, List.mem_cons_self, hv'⟩
      · obtain ⟨m, q, a', ha', hr⟩ := exists_of_mem_resolveFrom hvs' hv
        exact ⟨m, q, a', List.mem_cons_of_mem a ha', hr⟩

theorem Script.exists_of_mem_resolveArgs {a : Arg} : ∀ {n : Nat} {ps : List Param} {js : List Json} {as : List Arg},
    resolveArgs handles n ps js = .ok as → a ∈ as → ∃ ty j, resolveArg handles ty j = .ok a
  | _, [], _, _, has, ha => by
    cases has
    cases ha
  | _, _ :: _, [], _, has, ha => by
    cases has
    cases ha
  | n, p :: ps, j :: js, as, has, ha => by
    unfold resolveArgs at has
    split at has
    · cases has
    · rename_i a' ha'
      split at has <;> cases has
      rename_i as' has'
      rcases List.mem_cons.1 ha with rfl | ha
      · exact ⟨p.kind, j, ha'⟩
      · exact exists_of_mem_resolveArgs has' ha

/-- **The results that a call reads are named by ids.** -/
theorem Script.exists_id_of_callOf {contracts : List (String × Contract)} {spec : CommandSpec} {call : Call}
    (hcall : callOf contracts handles spec = .ok call) (hmem : .result h ∈ call.args) :
    ∃ id, handles.lookup id = some h := by
  obtain ⟨b, args, -, -, hargs, hcall⟩ := callOf_cases hcall
  obtain ⟨vs, hvs, rfl⟩ := BoundFunction.call_ok hcall
  obtain ⟨m, p, a, ha, hresolve⟩ := BoundFunction.exists_of_mem_resolveFrom hvs hmem
  obtain ⟨ty, j, hj⟩ := exists_of_mem_resolveArgs hargs ha
  -- a concrete value is encoded and the whole table is no result, so the argument was a reference
  rcases resolveArg_cases hj with ⟨id, r, -, hr, rfl⟩ | ⟨-, rfl⟩ | ⟨t, -, -, rfl⟩
  · simp only [BoundFunction.resolve] at hresolve
    split at hresolve <;> cases hresolve
    exact ⟨id, hr⟩
  · simp only [BoundFunction.resolve] at hresolve
    split at hresolve <;> cases hresolve
  · simp only [BoundFunction.resolve] at hresolve
    split at hresolve <;> cases hresolve

end

/-! ## What the commands of a script read -/

/-- **Every result that is read is that of an earlier command of the planner, one that does not replace the table.** -/
def Planner.Linked (p : Planner) : Prop :=
  ∀ (i : Nat) (c : Command) (h : Handle), p.commands[i]? = some c → .result h ∈ c.call.args →
    h.command.planner = p.id ∧ h.command.index < i ∧
      ∃ c', p.commands[h.command.index]? = some c' ∧ c'.replacesState = false

section
variable {contracts : List (String × Contract)} {specs : List CommandSpec} {spec : CommandSpec} {d d' : Draft} {p : Planner}

theorem Planner.Linked.concat {c : Command} (hp : p.Linked)
    (hc : ∀ h, .result h ∈ c.call.args → h.command.planner = p.id ∧
      ∃ c', p.commands[h.command.index]? = some c' ∧ c'.replacesState = false) : (p.concat c).Linked := by
  intro i c₀ h hi hmem
  rcases getElem?_concat_eq_some_iff.1 hi with hi | ⟨rfl, rfl⟩
  · obtain ⟨hown, hlt, c', hc', hrep⟩ := hp i c₀ h hi hmem
    exact ⟨hown, hlt, c', getElem?_concat_eq_some_iff.2 (.inl hc'), hrep⟩
  · obtain ⟨hown, c', hc', hrep⟩ := hc h hmem
    exact ⟨hown, (List.getElem?_eq_some_iff.1 hc').1, c', getElem?_concat_eq_some_iff.2 (.inl hc'), hrep⟩

theorem Drafted.linked_addCommand (hd : Drafted contracts specs d) (hl : d.planner.Linked)
    (hadd : Script.addCommand contracts d spec = .ok d') : d'.planner.Linked := by
  obtain ⟨call, hcall, hp, -⟩ := Script.addCommand_ok hadd
  rw [hp]
  refine hl.concat (c := ⟨call, spec.replaceState⟩) fun h hmem => ?_
  obtain ⟨id, hid⟩ := Script.exists_id_of_callOf hcall hmem
  obtain ⟨-, hown, c', out, hc', hrep, -, -⟩ := hd.denotes id h hid
  exact ⟨hown, c', hc', hrep⟩

theorem linked_of_build {read : ReadFile} {base : String} {s : Script} (h : s.build read base = .ok p) : p.Linked := by
  obtain ⟨contracts, handles, -, hadd⟩ := Script.build_cases h
  have hempty : (Planner.empty 0).Linked := fun i c h hi => by cases hi
  exact (Script.addCommands_induction (P := fun specs d => Drafted contracts specs d ∧ d.planner.Linked)
    (fun _ _ _ _ hd hc => ⟨hd.1.addCommand hc, hd.1.linked_addCommand hd.2 hc⟩) ⟨.empty contracts, hempty⟩ hadd).2

theorem Planner.Linked.allReadable (hl : p.Linked) : AllReadable p.id 0 p.commands := by
  refine allReadable_iff.2 fun i k h hv => ?_
  obtain ⟨c, hc, hk⟩ := argAt?_eq_some_iff.1 hv
  obtain ⟨hown, hlt, -⟩ := hl i c h hc (List.mem_of_getElem? hk)
  exact ⟨hown, hlt⟩

theorem Planner.Linked.replacesState_of_reads (hl : p.Linked) {i k : Nat} {c : Command} (hc : p.commands[i]? = some c)
    (hr : Reads p.commands (.result i) k) : c.replacesState = false := by
  obtain ⟨m, h, hv, rfl⟩ := reads_result_iff.1 hr
  obtain ⟨reader, hreader, hm⟩ := argAt?_eq_some_iff.1 hv
  obtain ⟨-, -, c', hc', hrep⟩ := hl k reader h hreader (List.mem_of_getElem? hm)
  obtain rfl : c = c' := Option.some.inj (hc.symm.trans hc')
  exact hrep

end

/-! ## What is left to refuse -/

/-- **The commands ask for more than an instruction or the table has room for.** -/
inductive OverCapacity (cs : List Command) : PlanError → Prop
  | operands {i : Nat} {c : Command} (command : cs[i]? = some c) (exceeds : maxOperands < c.call.args.length) :
      OverCapacity cs (.operandOverflow i c.call.signature c.call.args.length)
  | literals (exceeds : maxSlots < (literalsOf cs).length) : OverCapacity cs (.slotOverflow none)
  | slots {i : Nat} (exceeds : maxSlots < liveCount cs i) : OverCapacity cs (.slotOverflow (some i))

theorem Planner.Linked.overCapacity {p : Planner} (hl : p.Linked) {e : PlanError} (h : p.plan = .error e) :
    OverCapacity p.commands e := by
  rcases hl.allReadable.plan_error h with ⟨hlits, rfl⟩ | ⟨i, c, hc, hf, -⟩
  · exact .literals hlits
  · cases hf with
    | operands hlen => exact .operands hc hlen
    | conflict _ hrep hlast =>
      rw [hl.replacesState_of_reads hc hlast.1] at hrep
      cases hrep
    | slots _ _ _ hcount => exact .slots hcount

/-- **A script that builds has a plan unless it is too large.**  The plan passes its check, so it is the script's program; or
it is refused, and then a call has too many arguments, there are too many literals, or too many values are live at once. -/
theorem build_plan_capacity (read : ReadFile) (base : String) (s : Script) (p : Planner)
    (hbuild : s.build read base = .ok p) :
    (∃ prog, p.plan = .ok prog ∧ prog.validate = .ok () ∧ s.compile read base = .ok prog ∧
      ∀ text, Script.ofText text = .ok s → planScript read base text = .ok prog) ∨
    ∃ e, p.plan = .error e ∧ OverCapacity p.commands e ∧ s.compile read base = .error ⟨[.planning], .plan e⟩ := by
  cases hplan : p.plan with
  | ok prog =>
    obtain ⟨-, l, st, hp⟩ := plan_ok hplan
    have hcompile : s.compile read base = .ok prog := by
      simp [Script.compile, Script.programOf, hbuild, hplan, hp.validate_ok]
    refine .inl ⟨prog, rfl, hp.validate_ok, hcompile, fun text htext => ?_⟩
    rw [planScript, htext]
    exact hcompile
  | error e =>
    refine .inr ⟨e, rfl, (linked_of_build hbuild).overCapacity hplan, ?_⟩
    simp [Script.compile, Script.programOf, hbuild, hplan]

theorem build_plan_capacity_sumScript :
    sumScript.build (fun _ => .ok "") "" = .ok sumPlanner ∧ ∃ prog, sumPlanner.plan = .ok prog ∧
      prog.validate = .ok () ∧ sumScript.compile (fun _ => .ok "") "" = .ok prog := by
  refine ⟨build_sumScript, ?_⟩
  rcases build_plan_capacity _ _ sumScript sumPlanner build_sumScript with ⟨prog, hplan, hvalid, hcompile, -⟩ | ⟨e, he, -⟩
  · exact ⟨prog, hplan, hvalid, hcompile⟩
  · rw [plan_sumPlanner] at he
    cases he

end CallPlan
