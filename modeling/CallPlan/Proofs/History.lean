import CallPlan.Plan.Session
import CallPlan.Proofs.Reads
import Mathlib.Data.List.Nodup
/-!
# Histories of a session

A history is a list of events: planners are opened and copied, and commands are appended to them.  A planner that refuses a
command is given back as it was, so an event that fails leaves the session as it was (`perform_command`).  `Session.Moved` says
once all that an event can do; what a history keeps is read off it.
-/
namespace CallPlan

/-- What can happen in a session, to the planner at a position. -/
inductive Event where
  | openNew
  | clone (k : Nat)
  | add (k : Nat) (call : Call)
  | replaceState (k : Nat) (call : Call)
deriving DecidableEq

inductive Answer where
  | planner (k : Nat)
  | handle (h : Option Handle)
  | command (c : CommandRef)
  | refused (e : PlanError)
  | noPlanner
deriving DecidableEq

/-- The command that an event wants appended, and where. -/
def Event.command? : Event → Option (Nat × Command)
  | .add k call          => some (k, ⟨call, false⟩)
  | .replaceState k call => some (k, ⟨call, true⟩)
  | _                    => none

/-- **The event passes the result to the planner at `k`.** -/
def Event.Passes (e : Event) (k : Nat) (h : Handle) : Prop := ∃ c, e.command? = some (k, c) ∧ .result h ∈ c.call.args

namespace Session

def perform (s : Session) : Event → Session × Answer
  | .openNew => (s.openNew.1, .planner s.openNew.2)
  | .clone k =>
    match s.clone k with
    | some (s', k') => (s', .planner k')
    | none          => (s, .noPlanner)
  | .add k call =>
    match s.add k call with
    | some (.ok h, s')    => (s', .handle h)
    | some (.error e, s') => (s', .refused e)
    | none                => (s, .noPlanner)
  | .replaceState k call =>
    match s.replaceState k call with
    | some (.ok c, s')    => (s', .command c)
    | some (.error e, s') => (s', .refused e)
    | none                => (s, .noPlanner)

/-- The session after a history that starts without planners. -/
def after (es : List Event) : Session := es.foldl (fun s e => (s.perform e).1) {}

theorem after_concat (es : List Event) (e : Event) : after (es ++ [e]) = ((after es).perform e).1 := by
  simp [after, List.foldl_append]

end Session

/-- **The condition holds whenever a result is passed**, with the events before it. -/
def EachPass (P : List Event → Nat → Handle → Prop) (es : List Event) : Prop :=
  ∀ pre e post k h, es = pre ++ e :: post → e.Passes k h → P pre k h

section
variable {P : List Event → Nat → Handle → Prop} {es : List Event}

theorem eachPass_concat {e : Event} : EachPass P (es ++ [e]) ↔ EachPass P es ∧ ∀ k h, e.Passes k h → P es k h := by
  constructor
  · intro hall
    refine ⟨fun pre e' post k h hes => hall pre e' (post ++ [e]) k h ?_, fun k h => hall es e [] k h rfl⟩
    rw [hes, List.append_assoc, List.cons_append]
  · rintro ⟨hes, he⟩ pre e' post k h heq
    -- the last event is `e` itself when nothing follows it, and one of `es` otherwise
    rcases List.eq_nil_or_concat post with rfl | ⟨post', e'', rfl⟩
    · obtain ⟨rfl, heq'⟩ := List.append_inj' heq rfl
      obtain rfl : e = e' := List.singleton_inj.1 heq'
      exact he k h
    · rw [List.concat_eq_append, ← List.cons_append, ← List.append_assoc] at heq
      exact hes pre e' post' k h (List.append_inj' heq rfl).1

theorem EachPass.of_quiet (hes : ∀ e ∈ es, ∀ k h, ¬ e.Passes k h) : EachPass P es := by
  rintro pre e post k h rfl hpass
  exact absurd hpass (hes e (List.mem_append_right _ List.mem_cons_self) k h)

end

/-! ## One command more -/

namespace Planner

def concat (p : Planner) (c : Command) : Planner := ⟨p.id, p.commands ++ [c]⟩

/-- Why a command cannot be appended; the outputs are looked at before the arguments. -/
def refusal? (p : Planner) (c : Command) : Option PlanError :=
  if c.replacesState = true ∧ c.call.function.outputTypes ≠ [.bytesArray] then
    some (.invalidStateReplacement c.call.signature (AbiType.textAll c.call.function.outputTypes))
  else if c.call.args.any p.isForeign then some .foreignReturn
  else none

/-- The handle to the result of the next call. -/
def handleTo (p : Planner) (call : Call) : Option Handle :=
  match call.function.outputs with
  | [out] => some ⟨out.kind, ⟨p.id, p.size⟩⟩
  | _     => none

def answerTo (p : Planner) (c : Command) : Answer :=
  if c.replacesState then .command ⟨p.id, p.size⟩ else .handle (p.handleTo c.call)

theorem handleTo_eq_some {p : Planner} {call : Call} {h : Handle} (hh : p.handleTo call = some h) :
    ∃ out, call.function.outputs = [out] ∧ h = ⟨out.kind, ⟨p.id, p.size⟩⟩ := by
  unfold handleTo at hh
  split at hh <;> cases hh
  exact ⟨_, by assumption, rfl⟩

theorem add_eq (p : Planner) (call : Call) :
    p.add call =
      match p.refusal? ⟨call, false⟩ with
      | some err => (.error err, p)
      | none     => (.ok (p.handleTo call), p.concat ⟨call, false⟩) := by
  unfold add push refusal? handleTo
  cases call.args.any p.isForeign with
  | true => rfl
  | false =>
    rcases call.function.outputs with - | ⟨out, - | ⟨out', outs⟩⟩ <;> rfl

theorem replaceState_eq (p : Planner) (call : Call) :
    p.replaceState call =
      match p.refusal? ⟨call, true⟩ with
      | some err => (.error err, p)
      | none     => (.ok ⟨p.id, p.size⟩, p.concat ⟨call, true⟩) := by
  unfold replaceState push refusal?
  by_cases hout : call.function.outputTypes = [.bytesArray]
  · cases call.args.any p.isForeign <;> simp [hout, concat]
  · simp [hout]

theorem isForeign_eq_true_iff {p : Planner} {v : Value} :
    p.isForeign v = true ↔ ∃ h, v = .result h ∧ h.command.planner ≠ p.id := by
  cases v <;> simp [isForeign]

theorem refusal?_eq_none_iff {p : Planner} {c : Command} :
    p.refusal? c = none ↔ (c.replacesState = true → c.call.function.outputTypes = [.bytesArray]) ∧
      ∀ h, .result h ∈ c.call.args → h.command.planner = p.id := by
  have hargs : c.call.args.any p.isForeign = false ↔ ∀ h, .result h ∈ c.call.args → h.command.planner = p.id := by
    rw [← Bool.not_eq_true, List.any_eq_true]
    simp only [isForeign_eq_true_iff]
    constructor
    · intro hnone h hmem
      by_contra hne
      exact hnone ⟨_, hmem, h, rfl, hne⟩
    · rintro hall ⟨-, hmem, h, rfl, hne⟩
      exact hne (hall h hmem)
  rw [← hargs]
  unfold refusal?
  split_ifs <;> simp_all

end Planner

namespace Session

/-- **All that an event can do.**  What is appended to is left where it stands; what is opened or copied goes to the end. -/
inductive Moved (s : Session) : Event → Answer → Session → Prop
  | opened : Moved s .openNew (.planner s.planners.length) ⟨s.planners ++ [.empty s.nextId], s.nextId + 1⟩
  | cloned {k : Nat} {p : Planner} (found : s.get? k = some p) :
      Moved s (.clone k) (.planner s.planners.length) ⟨s.planners ++ [p], s.nextId⟩
  | appended {e : Event} {k : Nat} {c : Command} {p : Planner} (asked : e.command? = some (k, c))
      (found : s.get? k = some p) (accepted : p.refusal? c = none) :
      Moved s e (p.answerTo c) (s.set k (p.concat c))
  | refused {e : Event} {k : Nat} {c : Command} {p : Planner} {err : PlanError} (asked : e.command? = some (k, c))
      (found : s.get? k = some p) (why : p.refusal? c = some err) : Moved s e (.refused err) s
  | missing {e : Event} {k : Nat} (asked : e = .clone k ∨ ∃ c, e.command? = some (k, c)) (absent : s.get? k = none) :
      Moved s e .noPlanner s

variable {s s' : Session} {e : Event} {a : Answer} {j k : Nat} {c : Command} {p q : Planner}

theorem get?_set (found : s.get? k = some p) (q : Planner) (j : Nat) :
    (s.set k q).get? j = if k = j then some q else s.get? j := by
  have hlt : k < s.planners.length := (List.getElem?_eq_some_iff.1 found).1
  rw [get?, set, List.getElem?_set]
  simp only [hlt, if_true]
  rfl

theorem set_self (found : s.get? k = some p) : s.set k p = s := by
  obtain ⟨hlt, hget⟩ := List.getElem?_eq_some_iff.1 found
  rw [set, ← hget, List.set_getElem_self hlt]

/-- Adding and replacing differ in what they give out and in when they refuse, and in nothing else. -/
theorem perform_command (asked : e.command? = some (k, c)) (found : s.get? k = some p) :
    s.perform e =
      match p.refusal? c with
      | some err => (s, .refused err)
      | none     => (s.set k (p.concat c), p.answerTo c) := by
  cases e with
  | openNew => cases asked
  | clone j => cases asked
  | add j call =>
    cases asked
    simp only [perform, add, found, Option.map_some, Planner.add_eq]
    cases p.refusal? ⟨call, false⟩ with
    | none => rfl
    | some err => simp only [set_self found]
  | replaceState j call =>
    cases asked
    simp only [perform, replaceState, found, Option.map_some, Planner.replaceState_eq]
    cases p.refusal? ⟨call, true⟩ with
    | none => rfl
    | some err => simp only [set_self found]

theorem perform_command_missing (asked : e.command? = some (k, c)) (absent : s.get? k = none) :
    s.perform e = (s, .noPlanner) := by
  cases e <;> cases asked <;> simp [perform, add, replaceState, absent]

theorem perform_moved (s : Session) (e : Event) : Moved s e (s.perform e).2 (s.perform e).1 := by
  cases hcommand : e.command? with
  | some kc =>
    obtain ⟨k, c⟩ := kc
    cases hk : s.get? k with
    | none =>
      rw [perform_command_missing hcommand hk]
      exact .missing (.inr ⟨c, hcommand⟩) hk
    | some p =>
      rw [perform_command hcommand hk]
      cases hwhy : p.refusal? c with
      | none => exact .appended hcommand hk hwhy
      | some err => exact .refused hcommand hk hwhy
  | none =>
    cases e with
    | openNew => exact .opened
    | clone k =>
      cases hk : s.get? k with
      | none => simpa [perform, clone, hk] using Moved.missing (.inl rfl) hk
      | some p => simpa [perform, clone, hk] using Moved.cloned hk
    | add k call => cases hcommand
    | replaceState k call => cases hcommand

/-- **Where a planner comes from**: it was there before, it is new or a copy, or it has one command more than before. -/
theorem Moved.get?_cases (h : Moved s e a s') (hp : s'.get? k = some p) :
    s.get? k = some p ∨ p = .empty s.nextId ∨
    (∃ j, e = .clone j ∧ a = .planner k ∧ s.get? j = some p) ∨
    ∃ q c, e.command? = some (k, c) ∧ s.get? k = some q ∧ q.refusal? c = none ∧ p = q.concat c := by
  cases h with
  | opened =>
    rcases getElem?_concat_eq_some_iff.1 hp with hp | ⟨-, rfl⟩
    · exact .inl hp
    · exact .inr (.inl rfl)
  | cloned found =>
    rcases getElem?_concat_eq_some_iff.1 hp with hp | ⟨rfl, rfl⟩
    · exact .inl hp
    · exact .inr (.inr (.inl ⟨_, rfl, rfl, found⟩))
  | appended asked found accepted =>
    rename_i j c q
    rw [get?_set found] at hp
    by_cases hjk : j = k
    · subst hjk
      rw [if_pos rfl] at hp
      cases hp
      exact .inr (.inr (.inr ⟨q, c, asked, found, accepted, rfl⟩))
    · rw [if_neg hjk] at hp
      exact .inl hp
  | refused => exact .inl hp
  | missing => exact .inl hp

/-- **A planner stays where it is and keeps its identity and its commands.** -/
theorem Moved.grows (h : Moved s e a s') (hp : s.get? k = some p) :
    ∃ p', s'.get? k = some p' ∧ p'.id = p.id ∧ p.commands <+: p'.commands := by
  cases h with
  | opened => exact ⟨p, getElem?_concat_eq_some_iff.2 (.inl hp), rfl, List.prefix_refl _⟩
  | cloned found => exact ⟨p, getElem?_concat_eq_some_iff.2 (.inl hp), rfl, List.prefix_refl _⟩
  | appended asked found accepted =>
    rename_i j c q
    by_cases hjk : j = k
    · subst hjk
      obtain rfl : q = p := Option.some.inj (found.symm.trans hp)
      exact ⟨q.concat c, by rw [get?_set found, if_pos rfl], rfl, List.prefix_append _ _⟩
    · exact ⟨p, by rw [get?_set found, if_neg hjk, hp], rfl, List.prefix_refl _⟩
  | refused => exact ⟨p, hp, rfl, List.prefix_refl _⟩
  | missing => exact ⟨p, hp, rfl, List.prefix_refl _⟩

/-! ## Identities -/

def ids (s : Session) : List Nat := s.planners.map Planner.id

/-- **No two planners have one identity, and the next one is new.** -/
structure Distinct (s : Session) : Prop where
  nodup : s.ids.Nodup
  lt_nextId : ∀ i ∈ s.ids, i < s.nextId

theorem Distinct.eq_of_id_eq (h : s.Distinct) (hj : s.get? j = some p) (hk : s.get? k = some q) (hid : p.id = q.id) :
    j = k := by
  have hj' : s.ids[j]? = some p.id := by simp [ids, show s.planners[j]? = some p from hj]
  have hk' : s.ids[k]? = some p.id := by simp [ids, show s.planners[k]? = some q from hk, hid]
  have hlt : j < s.ids.length := (List.getElem?_eq_some_iff.1 hj').1
  exact (List.getElem?_inj hlt h.nodup).1 (hj'.trans hk'.symm)

theorem Moved.distinct (h : Moved s e a s') (hd : s.Distinct) (hclone : ∀ j, e ≠ .clone j) : s'.Distinct := by
  cases h with
  | opened =>
    have hids : ids ⟨s.planners ++ [.empty s.nextId], s.nextId + 1⟩ = s.ids ++ [s.nextId] := by
      simp [ids, Planner.empty]
    refine ⟨?_, fun i hi => ?_⟩
    · rw [hids]
      exact List.nodup_append.2 ⟨hd.nodup, List.nodup_singleton _, fun i hi i' hi' heq =>
        absurd (hd.lt_nextId i hi) (by simp_all)⟩
    · rw [hids] at hi
      rcases List.mem_append.1 hi with hi | hi
      · exact Nat.lt_succ_of_lt (hd.lt_nextId i hi)
      · exact (List.mem_singleton.1 hi) ▸ Nat.lt_succ_self _
  | cloned => exact absurd rfl (hclone _)
  | appended asked found accepted =>
    rename_i k c p
    have hids : (s.set k (p.concat c)).ids = s.ids := by
      have hid : s.ids[k]? = some (p.concat c).id := by simp [ids, show s.planners[k]? = some p from found, Planner.concat]
      obtain ⟨hlt, hget⟩ := List.getElem?_eq_some_iff.1 hid
      rw [ids, set, List.map_set, ← hget]
      exact List.set_getElem_self hlt
    exact ⟨hids ▸ hd.nodup, hids ▸ hd.lt_nextId⟩
  | refused => exact hd
  | missing => exact hd

theorem distinct_after {es : List Event} (hclone : ∀ j, .clone j ∉ es) : (after es).Distinct := by
  induction es using List.reverseRecOn with
  | nil => exact ⟨List.nodup_nil, fun i hi => absurd hi List.not_mem_nil⟩
  | append_singleton es e ih =>
    rw [after_concat]
    refine (perform_moved _ e).distinct (ih fun j hj => ?_) fun j hj => ?_
    · exact hclone j (List.mem_append_left _ hj)
    · exact hclone j (hj ▸ List.mem_append_right _ (List.mem_singleton_self _))

end Session
end CallPlan
