import CallPlan.Proofs.History
import CallPlan.Script.Build
/-!
# What a script builds

Each command of a script gives one command of the planner, a call of the function that it names (`CommandSpec.Calls`).  Its
arguments stand for what is written there: the result of the command with an id, the whole table, or a literal (`Written`).
`Drafted` says so of the commands so far, together with what carries it to the next command: an id names the one command that
bears it.
-/
namespace CallPlan

/-- The ways in which an argument is written. -/
inductive ArgForm where
  | ref (id : String)
  | state
  | concrete

/-- A text under `ref` names a result.  Where nothing is under `ref`, `true` under `state` is the whole table. -/
def Json.argForm : Json → ArgForm
  | .object ms =>
    match lastValue? "ref" ms, lastValue? "state" ms with
    | some (.string id), _                => .ref id
    | none,              some (.bool true) => .state
    | _,                 _                => .concrete
  | _          => .concrete

/-- **The function that a command calls**: what stands before the first dot names a contract, what stands behind it one of
the contract's functions. -/
def CommandSpec.Calls (contracts : List (String × Contract)) (c : CommandSpec) (b : BoundFunction) : Prop :=
  ∃ name key contract, Text.splitFirst? '.' c.call.toList = some (name, key) ∧
    contracts.lookup (String.ofList name) = some contract ∧ contract.function (String.ofList key) = .ok b

/-- **The command at `i` bears the id.** -/
def Names (specs : List CommandSpec) (id : String) (i : Nat) : Prop := ∃ c, specs[i]? = some c ∧ c.id = some id

/-- **What an argument of the command at `i` stands for**, where ids name these results. -/
inductive Written (handles : List (String × Handle)) (i : Nat) (ty : AbiType) (j : Json) : Value → Prop
  | ref {id : String} {h : Handle} (form : j.argForm = .ref id) (found : handles.lookup id = some h)
      (earlier : h.command.index < i) (kind_eq : h.kind = ty) : Written handles i ty j (.result h)
  | state (form : j.argForm = .state) : Written handles i ty j .state
  | literal {t : Token} {bs : Bytes} (form : j.argForm = .concrete) (read : Token.ofJson ty j = .ok t)
      (encoded : encodeLiteral ty t = .ok bs) : Written handles i ty j (.literal ty bs)

/-- **A planned call does what a command of a script says.** -/
structure Renders (contracts : List (String × Contract)) (handles : List (String × Handle)) (i : Nat) (spec : CommandSpec)
    (b : BoundFunction) (call : Call) : Prop where
  calls : spec.Calls contracts b
  address_eq : call.address = b.address
  function_eq : call.function = b.function
  arity : spec.args.length = b.function.inputs.length
  args : ∀ (k : Nat) (j : Json) (p : Param), spec.args[k]? = some j → b.function.inputs[k]? = some p →
    ∃ v, call.args[k]? = some v ∧ Written handles i p.kind j v

/-- **An id stands for the result of the command that bears it**, a command with a single output. -/
structure Denotes (specs : List CommandSpec) (p : Planner) (id : String) (h : Handle) : Prop where
  names : Names specs id h.command.index
  own : h.command.planner = p.id
  single : ∃ c out, p.commands[h.command.index]? = some c ∧ c.replacesState = false ∧ c.call.function.outputs = [out] ∧
    h.kind = out.kind

/-- **The draft has the commands of a script so far.** -/
structure Drafted (contracts : List (String × Contract)) (specs : List CommandSpec) (d : Draft) : Prop where
  length_eq : d.planner.commands.length = specs.length
  denotes : ∀ id h, d.handles.lookup id = some h → Denotes specs d.planner id h
  named : ∀ id i, Names specs id i → ∃ h, d.handles.lookup id = some h ∧ h.command.index = i
  renders : ∀ (i : Nat) (spec : CommandSpec), specs[i]? = some spec →
    ∃ c b, d.planner.commands[i]? = some c ∧ Renders contracts d.handles i spec b c.call

/-! ## Arguments -/

theorem Script.resolveArg_cases {handles : List (String × Handle)} {ty : AbiType} {j : Json} {a : Arg}
    (h : resolveArg handles ty j = .ok a) :
    (∃ id r, j.argForm = .ref id ∧ handles.lookup id = some r ∧ a = .value (.result r)) ∨
    (j.argForm = .state ∧ a = .value .state) ∨
    ∃ t, j.argForm = .concrete ∧ Token.ofJson ty j = .ok t ∧ a = .token t := by
  have hconcrete : (Token.ofJson ty j).map Arg.token = .ok a → ∃ t, Token.ofJson ty j = .ok t ∧ a = .token t := by
    cases Token.ofJson ty j with
    | error e => intro h; cases h
    | ok t => intro h; cases h; exact ⟨t, rfl, rfl⟩
  cases j with
  | object ms =>
    simp only [resolveArg, Json.argForm] at h ⊢
    cases href : Json.lastValue? "ref" ms with
    | none =>
      simp only [href] at h
      split at h
      · rename_i hstate
        cases h
        exact .inr (.inl ⟨by simp [hstate], rfl⟩)
      · rename_i hstate
        obtain ⟨t, ht, ha⟩ := hconcrete h
        refine .inr (.inr ⟨t, ?_, ht, ha⟩)
        split <;> simp_all
    | some r =>
      cases r with
      | string id =>
        simp only [href] at h
        cases hr : handles.lookup id with
        | none => simp [hr] at h
        | some r =>
          simp only [hr] at h
          cases h
          exact .inl ⟨id, r, rfl, hr, rfl⟩
      | _ => simp [href] at h
  | _ =>
    obtain ⟨t, ht, ha⟩ := hconcrete h
    exact .inr (.inr ⟨t, rfl, ht, ha⟩)

section
variable {handles : List (String × Handle)} {i n : Nat} {p : Param} {j : Json} {a : Arg} {v : Value} {b : BoundFunction}

/-- **An argument that is resolved and then accepted by its parameter stands for what is written.** -/
theorem written_of_resolve (hbound : ∀ id r, handles.lookup id = some r → r.command.index < i)
    (ha : Script.resolveArg handles p.kind j = .ok a) (hv : b.resolve n p a = .ok v) : Written handles i p.kind j v := by
  rcases Script.resolveArg_cases ha with ⟨id, r, hform, hr, rfl⟩ | ⟨hform, rfl⟩ | ⟨t, hform, ht, rfl⟩
  · simp only [BoundFunction.resolve] at hv
    split at hv <;> cases hv
    rename_i hkind
    exact .ref hform hr (hbound id r hr) hkind
  · simp only [BoundFunction.resolve] at hv
    split at hv <;> cases hv
    exact .state hform
  · simp only [BoundFunction.resolve] at hv
    split at hv <;> cases hv
    rename_i hbs
    exact .literal hform ht hbs

theorem Script.resolveArgs_getElem? : ∀ {n k : Nat} {ps : List Param} {js : List Json} {as : List Arg},
    resolveArgs handles n ps js = .ok as → ps[k]? = some p → js[k]? = some j →
    ∃ a, as[k]? = some a ∧ resolveArg handles p.kind j = .ok a
  | _, _, [], _, _, _, hp, _ => by cases hp
  | _, _, _ :: _, [], _, _, _, hj => by cases hj
  | n, k, q :: ps, i :: js, as, h, hp, hj => by
    unfold resolveArgs at h
    split at h
    · cases h
    · rename_i a ha
      split at h <;> cases h
      rename_i as' has
      cases k with
      | zero =>
        cases hp
        cases hj
        exact ⟨a, rfl, ha⟩
      | succ k =>
        obtain ⟨a', hk, ha'⟩ := resolveArgs_getElem? has hp hj
        exact ⟨a', hk, ha'⟩

theorem BoundFunction.resolveFrom_getElem? : ∀ {n k : Nat} {ps : List Param} {as : List Arg} {vs : List Value},
    b.resolveFrom n ps as = .ok vs → ps[k]? = some p → as[k]? = some a →
    ∃ v, vs[k]? = some v ∧ b.resolve (n + k) p a = .ok v
  | _, _, [], _, _, _, hp, _ => by cases hp
  | _, _, _ :: _, [], _, _, _, ha => by cases ha
  | n, k, q :: ps, c :: as, vs, h, hp, ha => by
    unfold resolveFrom at h
    split at h
    · cases h
    · rename_i v hv
      split at h <;> cases h
      rename_i vs' hvs
      cases k with
      | zero =>
        cases hp
        cases ha
        exact ⟨v, rfl, hv⟩
      | succ k =>
        obtain ⟨v', hk, hv'⟩ := resolveFrom_getElem? hvs hp ha
        exact ⟨v', hk, by rw [← hv', Nat.add_right_comm, Nat.add_assoc]⟩

theorem BoundFunction.call_ok {args : List Arg} {call : Call} (h : b.call args = .ok call) :
    ∃ vs, b.resolveFrom 0 b.function.inputs args = .ok vs ∧ call = ⟨b.address, b.function, vs⟩ := by
  unfold BoundFunction.call at h
  split at h
  · cases h
  · split at h <;> cases h
    rename_i vs hvs
    exact ⟨vs, hvs, rfl⟩

end

/-! ## One command -/

/-- **An added call stands at the end, and a handle is given out exactly for a single output.** -/
theorem Planner.add_ok {p p' : Planner} {call : Call} {r : Option Handle} (h : p.add call = (.ok r, p')) :
    p' = ⟨p.id, p.commands ++ [⟨call, false⟩]⟩ ∧
      ∀ r' ∈ r, ∃ out, call.function.outputs = [out] ∧ r' = ⟨out.kind, ⟨p.id, p.size⟩⟩ := by
  rw [add_eq] at h
  split at h <;> cases h
  exact ⟨rfl, fun r' hr => handleTo_eq_some hr⟩

theorem Planner.replaceState_ok {p p' : Planner} {call : Call} {r : CommandRef}
    (h : p.replaceState call = (.ok r, p')) :
    p' = ⟨p.id, p.commands ++ [⟨call, true⟩]⟩ := by
  rw [replaceState_eq] at h
  split at h <;> cases h
  rfl

namespace Script
variable {contracts : List (String × Contract)} {handles handles' : List (String × Handle)} {spec : CommandSpec}
  {d d' : Draft}

/-- **A call that a command makes**: its function is found, its arguments are resolved one for one and then accepted. -/
theorem callOf_cases {call : Call} (h : callOf contracts handles spec = .ok call) :
    ∃ b args, spec.Calls contracts b ∧ spec.args.length = b.function.inputs.length ∧
      resolveArgs handles 0 b.function.inputs spec.args = .ok args ∧ b.call args = .ok call := by
  unfold callOf at h
  split at h
  · cases h
  · rename_i name key hsplit
    split at h
    · cases h
    · rename_i contract hcontract
      split at h
      · cases h
      · rename_i b hb
        by_cases hlen : spec.args.length ≠ b.function.inputs.length
        · simp [if_pos hlen] at h
        · simp only [if_neg hlen] at h
          split at h
          · cases h
          · rename_i args hargs
            split at h <;> cases h
            rename_i hcall
            exact ⟨b, args, ⟨name, key, contract, hsplit, hcontract, hb⟩, Classical.not_not.1 hlen, hargs, hcall⟩

theorem callOf_ok {call : Call} {i : Nat} (hbound : ∀ id r, handles.lookup id = some r → r.command.index < i)
    (h : callOf contracts handles spec = .ok call) : ∃ b, Renders contracts handles i spec b call := by
  obtain ⟨b, args, hcalls, hlen, hargs, hcall⟩ := callOf_cases h
  obtain ⟨vs, hvs, rfl⟩ := BoundFunction.call_ok hcall
  refine ⟨b, hcalls, rfl, rfl, hlen, fun k j p hj hp => ?_⟩
  obtain ⟨a, ha, hresolve⟩ := resolveArgs_getElem? hargs hp hj
  obtain ⟨v, hv, haccept⟩ := BoundFunction.resolveFrom_getElem? hvs hp ha
  exact ⟨v, hv, written_of_resolve hbound hresolve haccept⟩

theorem nameResult_ok {r : Option Handle} {id? : Option String} (h : nameResult handles r id? = .ok handles') :
    (id? = none ∧ handles' = handles) ∨
    ∃ id r', id? = some id ∧ r = some r' ∧ handles.lookup id = none ∧ handles' = handles ++ [(id, r')] := by
  cases id? with
  | none => cases h; exact .inl ⟨rfl, rfl⟩
  | some id =>
    cases r with
    | none => cases h
    | some r' =>
      simp only [nameResult] at h
      split at h <;> cases h
      rename_i hnone
      exact .inr ⟨id, r', rfl, rfl, Option.not_isSome_iff_eq_none.1 hnone, rfl⟩

/-- **An added command stands at the end, and its id, if it has one, is new and names its result.** -/
theorem addCommand_ok (h : addCommand contracts d spec = .ok d') :
    ∃ call, callOf contracts d.handles spec = .ok call ∧
      d'.planner = ⟨d.planner.id, d.planner.commands ++ [⟨call, spec.replaceState⟩]⟩ ∧
      ((spec.id = none ∧ d'.handles = d.handles) ∨
        ∃ id out, spec.id = some id ∧ spec.replaceState = false ∧ call.function.outputs = [out] ∧
          d.handles.lookup id = none ∧
          d'.handles = d.handles ++ [(id, ⟨out.kind, ⟨d.planner.id, d.planner.size⟩⟩)]) := by
  unfold addCommand at h
  split at h
  · cases h
  · rename_i call hcall
    refine ⟨call, hcall, ?_⟩
    cases hrep : spec.replaceState with
    | true =>
      simp only [hrep, if_true] at h
      cases hid : spec.id with
      | some id => simp [hid] at h
      | none =>
        simp only [hid, Option.isSome_none, Bool.false_eq_true, if_false] at h
        split at h <;> cases h
        rename_i hp
        exact ⟨Planner.replaceState_ok hp, .inl ⟨rfl, rfl⟩⟩
    | false =>
      simp only [hrep, Bool.false_eq_true, if_false] at h
      split at h
      · cases h
      · rename_i hadd
        obtain ⟨rfl, hsingle⟩ := Planner.add_ok hadd
        split at h <;> cases h
        rename_i hname
        refine ⟨rfl, ?_⟩
        rcases nameResult_ok hname with ⟨hid, rfl⟩ | ⟨id, r', hid, rfl, hnew, rfl⟩
        · exact .inl ⟨hid, rfl⟩
        · obtain ⟨out, hout, rfl⟩ := hsingle r' rfl
          exact .inr ⟨id, out, hid, rfl, hout, hnew, rfl⟩

end Script

/-! ## All commands -/

theorem names_concat {specs : List CommandSpec} {spec : CommandSpec} {id : String} {i : Nat} :
    Names (specs ++ [spec]) id i ↔ Names specs id i ∨ (i = specs.length ∧ spec.id = some id) :=
  exists_getElem?_concat

section
variable {contracts : List (String × Contract)} {specs : List CommandSpec} {spec : CommandSpec} {d d' : Draft}

theorem Renders.mono {handles handles' : List (String × Handle)} {i : Nat} {b : BoundFunction} {call : Call}
    (h : Renders contracts handles i spec b call)
    (hmono : ∀ id r, handles.lookup id = some r → handles'.lookup id = some r) :
    Renders contracts handles' i spec b call where
  calls := h.calls
  address_eq := h.address_eq
  function_eq := h.function_eq
  arity := h.arity
  args k j p hj hp := by
    obtain ⟨v, hv, hw⟩ := h.args k j p hj hp
    refine ⟨v, hv, ?_⟩
    cases hw with
    | ref form found earlier kind_eq => exact .ref form (hmono _ _ found) earlier kind_eq
    | state form => exact .state form
    | literal form read encoded => exact .literal form read encoded

theorem Denotes.concat {p : Planner} {c : Command} {id : String} {r : Handle} (h : Denotes specs p id r) :
    Denotes (specs ++ [spec]) ⟨p.id, p.commands ++ [c]⟩ id r where
  names := names_concat.2 (.inl h.names)
  own := h.own
  single := by
    obtain ⟨c', out, hc, hrep, hout, hkind⟩ := h.single
    exact ⟨c', out, getElem?_concat_eq_some_iff.2 (.inl hc), hrep, hout, hkind⟩

/-- **Adding a command keeps to the script.** -/
theorem Drafted.addCommand (h : Drafted contracts specs d) (hadd : Script.addCommand contracts d spec = .ok d') :
    Drafted contracts (specs ++ [spec]) d' := by
  obtain ⟨call, hcall, hp, hh⟩ := Script.addCommand_ok hadd
  have hbound : ∀ id r, d.handles.lookup id = some r → r.command.index < specs.length := by
    intro id r hr
    obtain ⟨c, hc, -⟩ := (h.denotes id r hr).names
    exact (List.getElem?_eq_some_iff.1 hc).1
  have hmono : ∀ id r, d.handles.lookup id = some r → d'.handles.lookup id = some r := by
    intro id r hr
    rcases hh with ⟨-, hh⟩ | ⟨id', out, -, -, -, hnew, hh⟩
    · rw [hh, hr]
    · rw [hh, lookup_concat hnew, if_neg, hr]
      rintro rfl
      rw [hnew] at hr
      cases hr
  refine ⟨by simp [hp, h.length_eq], fun id r hr => ?_, fun id i hi => ?_, fun i spec' hspec => ?_⟩
  · rw [hp]
    rcases hh with ⟨-, hh⟩ | ⟨id', out, hid, hrep, hout, hnew, hh⟩
    · exact (h.denotes id r (hh ▸ hr)).concat
    · rw [hh, lookup_concat hnew] at hr
      split at hr
      · cases hr
        subst id
        refine ⟨names_concat.2 (.inr ⟨h.length_eq, hid⟩), rfl, ⟨call, spec.replaceState⟩, out, ?_, hrep, hout, rfl⟩
        exact getElem?_concat_eq_some_iff.2 (.inr ⟨rfl, rfl⟩)
      · exact (h.denotes id r hr).concat
  · rcases names_concat.1 hi with hi | ⟨rfl, hid⟩
    · obtain ⟨r, hr, hri⟩ := h.named id i hi
      exact ⟨r, hmono id r hr, hri⟩
    · rcases hh with ⟨hnone, -⟩ | ⟨id', out, hid', -, -, hnew, hh⟩
      · rw [hnone] at hid
        cases hid
      · rw [hid'] at hid
        cases hid
        exact ⟨_, by rw [hh, lookup_concat hnew, if_pos rfl], h.length_eq⟩
  · rw [hp]
    rcases getElem?_concat_eq_some_iff.1 hspec with hspec | ⟨rfl, rfl⟩
    · obtain ⟨c, b, hc, hb⟩ := h.renders i spec' hspec
      exact ⟨c, b, getElem?_concat_eq_some_iff.2 (.inl hc), hb.mono hmono⟩
    · obtain ⟨b, hb⟩ := Script.callOf_ok hbound hcall
      exact ⟨⟨call, spec.replaceState⟩, b, getElem?_concat_eq_some_iff.2 (.inr ⟨h.length_eq.symm, rfl⟩), hb.mono hmono⟩

theorem Drafted.empty (contracts : List (String × Contract)) : Drafted contracts [] ⟨.empty 0, []⟩ where
  length_eq := rfl
  denotes _ _ hr := by cases hr
  named _ _ hi := by
    obtain ⟨c, hc, -⟩ := hi
    cases hc
  renders _ _ hspec := by cases hspec

/-- **What adding a command keeps, adding all commands keeps.** -/
theorem Script.addCommands_induction {P : List CommandSpec → Draft → Prop}
    (step : ∀ specs spec d d', P specs d → addCommand contracts d spec = .ok d' → P (specs ++ [spec]) d') :
    ∀ {cs specs : List CommandSpec} {n : Nat} {d : Draft}, P specs d → addCommands contracts n d cs = .ok d' →
      P (specs ++ cs) d'
  | [], specs, n, d, h, hadd => by
    cases hadd
    rwa [List.append_nil]
  | c :: cs, specs, n, d, h, hadd => by
    unfold addCommands at hadd
    cases hc : addCommand contracts d c with
    | error f => simp [hc, inContext] at hadd
    | ok d₁ =>
      simp only [hc, inContext] at hadd
      rw [← List.singleton_append, ← List.append_assoc]
      exact addCommands_induction step (step specs c d d₁ h hc) hadd

theorem Script.build_cases {read : ReadFile} {base : String} {s : Script} {p : Planner} (h : s.build read base = .ok p) :
    ∃ contracts handles, bind read base s.contracts = .ok contracts ∧
      addCommands contracts 0 ⟨.empty 0, []⟩ s.commands = .ok ⟨p, handles⟩ := by
  unfold build at h
  split at h
  · cases h
  · rename_i contracts hbind
    split at h <;> cases h
    rename_i d hd
    exact ⟨contracts, d.handles, hbind, hd⟩

/-- **A planner that a script builds has the commands of the script.** -/
theorem build_ok {read : ReadFile} {base : String} {s : Script} {p : Planner} (h : s.build read base = .ok p) :
    ∃ contracts handles, Script.bind read base s.contracts = .ok contracts ∧ Drafted contracts s.commands ⟨p, handles⟩ := by
  obtain ⟨contracts, handles, hbind, hadd⟩ := Script.build_cases h
  refine ⟨contracts, handles, hbind, ?_⟩
  exact Script.addCommands_induction (fun _ _ _ _ hd hc => hd.addCommand hc) (Drafted.empty contracts) hadd

/-- **An id stands with one command only.** -/
theorem Drafted.names_unique (h : Drafted contracts specs d) {id : String} {i j : Nat} (hi : Names specs id i)
    (hj : Names specs id j) : i = j := by
  obtain ⟨r, hr, rfl⟩ := h.named id i hi
  obtain ⟨r', hr', rfl⟩ := h.named id j hj
  rw [hr] at hr'
  cases hr'
  rfl

end
end CallPlan
