import CallPlan.Proofs.Handles
import CallPlan.Proofs.Refusals
/-!
# Planners over whole histories

What a caller sees of a history is its transcript: every event with its answer.  In a history without copies the transcript
says all there is to know (`planners_hold_accepted_calls`): a planner has exactly the calls that were accepted for it, in
order, and an answer names the position of its own call.  So if callers pass on only results of commands that an answer has
named, whatever type they give them, every result that a planner reads is one of its own earlier commands.
-/
namespace CallPlan

open Session (after Moved)

/-! ## Transcripts -/

/-- Whether a command was appended. -/
def Answer.isAccepted : Answer → Bool
  | .handle _ | .command _ => true
  | _                      => false

/-- The command that an answer names. -/
def Answer.ref? : Answer → Option CommandRef
  | .handle (some h) => some h.command
  | .command c       => some c
  | _                => none

def Session.transcriptFrom (s : Session) : List Event → List (Event × Answer)
  | []      => []
  | e :: es => (e, (s.perform e).2) :: transcriptFrom (s.perform e).1 es

/-- The events of a history that starts without planners, each with its answer. -/
def transcript (es : List Event) : List (Event × Answer) := Session.transcriptFrom {} es

/-- The command that an event appended to the planner at `k`, as its answer tells. -/
def acceptedCommand? (k : Nat) (ea : Event × Answer) : Option Command :=
  match ea.1.command? with
  | some (j, c) => if j = k ∧ ea.2.isAccepted = true then some c else none
  | none        => none

/-- **The calls that were accepted for the planner at `k`**, in order. -/
def accepted (k : Nat) (es : List Event) : List Command := (transcript es).filterMap (acceptedCommand? k)

theorem Session.transcriptFrom_concat (e : Event) : ∀ (es : List Event) (s : Session),
    s.transcriptFrom (es ++ [e]) =
      s.transcriptFrom es ++ [(e, ((es.foldl (fun s e => (s.perform e).1) s).perform e).2)]
  | [], _ => rfl
  | e' :: es, s => by
    simp only [List.cons_append, transcriptFrom, List.foldl_cons]
    rw [transcriptFrom_concat e es]

theorem accepted_concat (k : Nat) (es : List Event) (e : Event) :
    accepted k (es ++ [e]) = accepted k es ++ (acceptedCommand? k (e, ((after es).perform e).2)).toList := by
  unfold accepted transcript
  rw [Session.transcriptFrom_concat, List.filterMap_append]
  rfl

theorem accepted_prefix {k : Nat} {pre es : List Event} (h : pre <+: es) : accepted k pre <+: accepted k es := by
  obtain ⟨post, rfl⟩ := h
  induction post using List.reverseRecOn with
  | nil => rw [List.append_nil]
  | append_singleton post e ih =>
    rw [← List.append_assoc, accepted_concat]
    exact ih.trans (List.prefix_append _ _)

/-! ## One event -/

section
variable {s s' : Session} {e : Event} {a : Answer} {k : Nat} {c : Command} {p : Planner}

/-- The commands of the planner at `k`, none where there is no planner. -/
def Session.commandsAt (s : Session) (k : Nat) : List Command := ((s.get? k).map Planner.commands).getD []

theorem Session.commandsAt_of_get? (h : s.get? k = some p) : s.commandsAt k = p.commands := by
  rw [commandsAt, h]
  rfl

theorem Planner.isAccepted_answerTo (p : Planner) (c : Command) : (p.answerTo c).isAccepted = true := by
  unfold answerTo
  split <;> rfl

/-- **The answer to an event tells what the event did to each planner.** -/
theorem Session.Moved.commandsAt_eq (h : Moved s e a s') (hclone : ∀ j, e ≠ .clone j) (k : Nat) :
    s'.commandsAt k = s.commandsAt k ++ (acceptedCommand? k (e, a)).toList := by
  cases h with
  | opened =>
    have hnone : acceptedCommand? k (.openNew, .planner s.planners.length) = none := rfl
    rw [hnone, Option.toList_none, List.append_nil]
    unfold commandsAt get?
    -- a planner that is opened has no commands, and neither has a position that no planner takes
    rcases Nat.lt_trichotomy k s.planners.length with hk | rfl | hk
    · rw [List.getElem?_append_left hk]
    · simp [Planner.empty]
    · have hlen : (s.planners ++ [Planner.empty s.nextId]).length ≤ k := by rw [List.length_append]; exact hk
      rw [List.getElem?_eq_none hlen, List.getElem?_eq_none (Nat.le_of_lt hk)]
  | cloned => exact absurd rfl (hclone _)
  | appended asked found accepted =>
    rename_i j c p
    by_cases hjk : j = k
    · subst hjk
      have hsome : acceptedCommand? j (e, p.answerTo c) = some c := by
        simp [acceptedCommand?, asked, Planner.isAccepted_answerTo]
      rw [hsome, commandsAt_of_get? found, commandsAt_of_get? (p := p.concat c) (by rw [get?_set found, if_pos rfl])]
      rfl
    · have hnone : acceptedCommand? k (e, p.answerTo c) = none := by simp [acceptedCommand?, asked, hjk]
      rw [hnone, Option.toList_none, List.append_nil]
      rw [commandsAt, commandsAt, get?_set found, if_neg hjk]
  | refused asked => simp [acceptedCommand?, asked, Answer.isAccepted]
  | missing asked absent =>
    rcases asked with rfl | ⟨c, asked⟩
    · exact absurd rfl (hclone _)
    · simp [acceptedCommand?, asked, Answer.isAccepted]

theorem commandsAt_after {es : List Event} (hclone : ∀ j, .clone j ∉ es) (k : Nat) :
    (after es).commandsAt k = accepted k es := by
  induction es using List.reverseRecOn with
  | nil => rfl
  | append_singleton es e ih =>
    have hes : ∀ j, .clone j ∉ es := fun j hj => hclone j (List.mem_append_left _ hj)
    have he : ∀ j, e ≠ .clone j := fun j hj => hclone j (hj ▸ List.mem_append_right _ List.mem_cons_self)
    rw [Session.after_concat, (Session.perform_moved _ e).commandsAt_eq he, ih hes, accepted_concat]

theorem Planner.ref?_answerTo {r : CommandRef} (h : (p.answerTo c).ref? = some r) : r = ⟨p.id, p.size⟩ := by
  unfold answerTo at h
  split at h
  · cases h
    rfl
  · cases hh : p.handleTo c.call with
    | none =>
      rw [hh] at h
      cases h
    | some handle =>
      rw [hh] at h
      obtain ⟨out, -, rfl⟩ := handleTo_eq_some hh
      cases h
      rfl

end

/-! ## Positions that were given out -/

/-- **An answer of the planner at `j` has named the command.** -/
def Returned (es : List Event) (j : Nat) (r : CommandRef) : Prop :=
  ∃ pre e post c, es = pre ++ e :: post ∧ e.command? = some (j, c) ∧ ((after pre).perform e).2.ref? = some r

/-- **Every result that is passed is one of a command that an answer has named before**, at whatever type. -/
def RefsReturned : List Event → Prop := EachPass fun pre _ h => ∃ j, Returned pre j h.command

section
variable {es pre post : List Event} {e : Event} {j k : Nat} {c : Command} {p : Planner} {r : CommandRef}

/-- **A named command stands in the planner that named it, and stays there.** -/
theorem Returned.exists_command (h : Returned es j r) :
    ∃ p c, (after es).get? j = some p ∧ r.planner = p.id ∧ p.commands[r.index]? = some c := by
  obtain ⟨pre, e, post, c, rfl, asked, href⟩ := h
  induction post using List.reverseRecOn with
  | nil =>
    rw [Session.after_concat]
    cases hp : (after pre).get? j with
    | none =>
      rw [Session.perform_command_missing asked hp] at href
      cases href
    | some p =>
      rw [Session.perform_command asked hp] at href ⊢
      cases hwhy : p.refusal? c with
      | some err =>
        rw [hwhy] at href
        cases href
      | none =>
        rw [hwhy] at href
        obtain rfl := Planner.ref?_answerTo href
        have hput : ((after pre).set j (p.concat c)).get? j = some (p.concat c) := by rw [Session.get?_set hp, if_pos rfl]
        exact ⟨p.concat c, c, hput, rfl, getElem?_concat_eq_some_iff.2 (.inr ⟨rfl, rfl⟩)⟩
  | append_singleton post e' ih =>
    obtain ⟨p, c', hp, hid, hc⟩ := ih
    obtain ⟨p', hp', hid', hgrown⟩ := (Session.perform_moved _ e').grows hp
    rw [← List.cons_append, ← List.append_assoc, Session.after_concat]
    exact ⟨p', c', hp', hid.trans hid'.symm, getElem?_of_isPrefix hgrown hc⟩

/-- **Without copies, a command is foreign to a planner exactly when another planner has named it.** -/
theorem Returned.planner_ne_iff (hclone : ∀ j, .clone j ∉ es) (hp : (after es).get? k = some p) (h : Returned es j r) :
    r.planner ≠ p.id ↔ j ≠ k := by
  obtain ⟨q, -, hq, hid, -⟩ := h.exists_command
  constructor
  · rintro hne rfl
    obtain rfl : q = p := Option.some.inj (hq.symm.trans hp)
    exact hne hid
  · intro hjk hown
    exact hjk ((Session.distinct_after hclone).eq_of_id_eq hq hp (hid.symm.trans hown))

/-- **Where only named commands are passed on, every planner can read its arguments.** -/
theorem RefsReturned.allReadable (href : RefsReturned es) (hclone : ∀ j, .clone j ∉ es)
    (hp : (after es).get? k = some p) : AllReadable p.id 0 p.commands := by
  induction es using List.reverseRecOn generalizing k p with
  | nil => cases hp
  | append_singleton es e ih =>
    obtain ⟨hes, he⟩ := eachPass_concat.1 href
    have hclone' : ∀ j, .clone j ∉ es := fun j hj => hclone j (List.mem_append_left _ hj)
    rw [Session.after_concat] at hp
    rcases (Session.perform_moved _ e).get?_cases hp with hp | rfl | ⟨j, rfl, -, -⟩ | ⟨q, c, asked, hq, haccepted, rfl⟩
    · exact ih hes hclone' hp
    · intro i d hi
      cases hi
    · exact absurd (List.mem_append_right es List.mem_cons_self) (hclone j)
    · refine (ih hes hclone' hq).concat fun v hv => ?_
      rw [Value.fault?_eq_none_iff]
      rintro h rfl
      -- the check of identities leaves only this planner, which has named a command that it has by now
      have hown := (Planner.refusal?_eq_none_iff.1 haccepted).2 h hv
      obtain ⟨j, hj⟩ := he k h ⟨c, asked, hv⟩
      obtain rfl : j = k := by
        by_contra hjk
        exact (hj.planner_ne_iff hclone' hq).2 hjk hown
      obtain ⟨q', c', hq', -, hc'⟩ := hj.exists_command
      obtain rfl : q = q' := Option.some.inj (hq.symm.trans hq')
      exact ⟨hown, (List.getElem?_eq_some_iff.1 hc').1⟩

end

/-! ## Whole histories -/

/-- **What becomes of an event that asks for `c` to be appended to the planner at `k`.**  Outputs are looked at before arguments;
a refusal changes nothing; an answer names the position that the command takes. -/
structure Settled (pre : List Event) (e : Event) (k : Nat) (c : Command) : Prop where
  misfit_iff : ((after pre).perform e).2 =
      .refused (.invalidStateReplacement c.call.signature (AbiType.textAll c.call.function.outputTypes)) ↔
    c.replacesState = true ∧ c.call.function.outputTypes ≠ [.bytesArray]
  foreign_iff : ((after pre).perform e).2 = .refused .foreignReturn ↔
    ¬ (c.replacesState = true ∧ c.call.function.outputTypes ≠ [.bytesArray]) ∧
      ∃ h j, .result h ∈ c.call.args ∧ j ≠ k ∧ Returned pre j h.command
  refused_cases : ∀ err, ((after pre).perform e).2 = .refused err →
    err = .foreignReturn ∨
      err = .invalidStateReplacement c.call.signature (AbiType.textAll c.call.function.outputTypes)
  refused_unchanged : ∀ err, ((after pre).perform e).2 = .refused err → ((after pre).perform e).1 = after pre
  accepted_or_refused : ((after pre).perform e).2.isAccepted = true ∨ ∃ err, ((after pre).perform e).2 = .refused err
  position : ∀ r, ((after pre).perform e).2.ref? = some r → (∃ p, (after pre).get? k = some p ∧ r.planner = p.id) ∧
    r.index = (accepted k pre).length

theorem settled {pre : List Event} {e : Event} {k : Nat} {c : Command} {p : Planner} (hclone : ∀ j, .clone j ∉ pre)
    (asked : e.command? = some (k, c)) (hp : (after pre).get? k = some p)
    (href : ∀ h, .result h ∈ c.call.args → ∃ j, Returned pre j h.command) : Settled pre e k c := by
  have hforeign : c.call.args.any p.isForeign = true ↔
      ∃ h j, .result h ∈ c.call.args ∧ j ≠ k ∧ Returned pre j h.command := by
    rw [List.any_eq_true]
    constructor
    · rintro ⟨v, hv, hf⟩
      obtain ⟨h, rfl, hne⟩ := Planner.isForeign_eq_true_iff.1 hf
      obtain ⟨j, hj⟩ := href h hv
      exact ⟨h, j, hv, (hj.planner_ne_iff hclone hp).1 hne, hj⟩
    · rintro ⟨h, j, hv, hjk, hj⟩
      exact ⟨_, hv, Planner.isForeign_eq_true_iff.2 ⟨h, rfl, (hj.planner_ne_iff hclone hp).2 hjk⟩⟩
  have hperform := Session.perform_command asked hp
  have hsize : p.size = (accepted k pre).length := by
    rw [← commandsAt_after hclone, Session.commandsAt_of_get? hp]
    rfl
  by_cases hmisfit : c.replacesState = true ∧ c.call.function.outputTypes ≠ [.bytesArray]
  · simp only [Planner.refusal?, if_pos hmisfit] at hperform
    constructor <;> simp [hperform, hmisfit, Answer.isAccepted, Answer.ref?]
  by_cases hany : c.call.args.any p.isForeign = true
  · simp only [Planner.refusal?, if_neg hmisfit, if_pos hany] at hperform
    rw [hforeign] at hany
    refine ⟨?_, ⟨fun _ => ⟨hmisfit, hany⟩, ?_⟩, ?_, ?_, ?_, ?_⟩ <;> simp [hperform, hmisfit, Answer.ref?]
  · simp only [Planner.refusal?, if_neg hmisfit, if_neg hany] at hperform
    have hacc := p.isAccepted_answerTo c
    have hne : ∀ err, p.answerTo c ≠ .refused err := by
      intro err h
      rw [h] at hacc
      cases hacc
    refine ⟨?_, ⟨?_, fun ⟨_, h⟩ => absurd (hforeign.2 h) hany⟩, ?_, ?_, ?_, fun r hr => ?_⟩
    · simp [hperform, hmisfit, hne]
    · simp [hperform, hne]
    · simp [hperform, hne]
    · simp [hperform, hne]
    · simp [hperform, hacc]
    · rw [hperform] at hr
      obtain rfl := Planner.ref?_answerTo hr
      exact ⟨⟨p, hp, rfl⟩, hsize⟩

/-- **Planners over a history without copies**, in which only results of named commands are passed on.  Every event is settled
by its outputs and the owners of its arguments, and what it appends stays at the position that its answer names.  At any point
a planner has exactly the calls that were accepted for it, in order, and planning it never fails on an argument. -/
theorem planners_hold_accepted_calls (es : List Event) (hclone : ∀ j, .clone j ∉ es) (href : RefsReturned es) :
    (∀ pre e post k c p, es = pre ++ e :: post → e.command? = some (k, c) → (after pre).get? k = some p →
      Settled pre e k c ∧
      ∀ r, ((after pre).perform e).2.ref? = some r → (accepted k es)[r.index]? = some c) ∧
    ∀ pre k p, pre <+: es → (after pre).get? k = some p →
      p.commands = accepted k pre ∧ p.plan ≠ .error .foreignReturn ∧
      ∀ i target, p.plan ≠ .error (.danglingReference i target) := by
  constructor
  · intro pre e post k c p hes asked hp
    have hpre : ∀ j, .clone j ∉ pre := fun j hj => hclone j (by rw [hes]; exact List.mem_append_left _ hj)
    have hsettled := settled hpre asked hp fun h hmem => href pre e post k h hes ⟨c, asked, hmem⟩
    refine ⟨hsettled, fun r hr => ?_⟩
    obtain ⟨-, hindex⟩ := hsettled.position r hr
    have hacc : ((after pre).perform e).2.isAccepted = true := by
      rcases hsettled.accepted_or_refused with hacc | ⟨err, herr⟩
      · exact hacc
      · rw [herr] at hr
        cases hr
    have hprefix : accepted k (pre ++ [e]) <+: accepted k es :=
      accepted_prefix ⟨post, by rw [hes, List.append_assoc, List.singleton_append]⟩
    have hsome : acceptedCommand? k (e, ((after pre).perform e).2) = some c := by simp [acceptedCommand?, asked, hacc]
    have hget : (accepted k (pre ++ [e]))[r.index]? = some c := by
      rw [accepted_concat, hsome, hindex]
      exact getElem?_concat_eq_some_iff.2 (.inr ⟨rfl, rfl⟩)
    obtain ⟨more, hmore⟩ := hprefix
    rw [← hmore, List.getElem?_append_left (List.getElem?_eq_some_iff.1 hget).1]
    exact hget
  · intro pre k p hpre hp
    have hclone' : ∀ j, .clone j ∉ pre := fun j hj => hclone j (hpre.subset hj)
    have href' : RefsReturned pre := by
      obtain ⟨post, rfl⟩ := hpre
      intro pre' e post' j h heq
      exact href pre' e (post' ++ post) j h (by rw [heq, List.append_assoc, List.cons_append])
    have hr := href'.allReadable hclone' hp
    refine ⟨?_, fun h => ?_, fun i target h => ?_⟩
    · rw [← commandsAt_after hclone', Session.commandsAt_of_get? hp]
    · rcases hr.plan_error h with ⟨-, hf⟩ | ⟨i, c, -, hf, -⟩ <;> cases hf
    · rcases hr.plan_error h with ⟨-, hf⟩ | ⟨i, c, -, hf, -⟩ <;> cases hf

/-! ## Two planners and one sum

The second planner is refused the sum of the first, the first is refused a replacement by a number, and then doubles its sum. -/

def crossedSums : List Event :=
  [.openNew, .openNew, .add 0 onePlusTwo, .add 1 twiceSum, .replaceState 0 onePlusTwo, .add 0 twiceSum]

theorem planners_hold_accepted_calls_crossedSums :
    (∀ j, .clone j ∉ crossedSums) ∧ RefsReturned crossedSums ∧
      ((after [.openNew, .openNew, .add 0 onePlusTwo]).perform (.add 1 twiceSum)).2 = .refused .foreignReturn ∧
      (after crossedSums).get? 0 = some doubledSum ∧ doubledSum.commands = accepted 0 crossedSums ∧
      ∀ i target, doubledSum.plan ≠ .error (.danglingReference i target) := by
  have hclone : ∀ j, .clone j ∉ crossedSums := by simp [crossedSums]
  have hsum : ∀ post, Returned ([.openNew, .openNew, .add 0 onePlusTwo] ++ post) 0 sumHandle.command :=
    fun post => ⟨[.openNew, .openNew], .add 0 onePlusTwo, post, _, rfl, rfl, rfl⟩
  have href : RefsReturned crossedSums := by
    have hquiet : ∀ e ∈ [.openNew, .openNew, .add 0 onePlusTwo], ∀ k h, ¬ Event.Passes e k h := by
      simp [Event.Passes, Event.command?, onePlusTwo]
    have hcrossed : RefsReturned ([.openNew, .openNew, .add 0 onePlusTwo] ++ [.add 1 twiceSum]) := by
      refine eachPass_concat.2 ⟨.of_quiet hquiet, fun k h hp => ?_⟩
      obtain ⟨rfl, rfl⟩ := passes_twiceSum hp
      exact ⟨0, hsum []⟩
    have hreplaced : RefsReturned
        ([.openNew, .openNew, .add 0 onePlusTwo] ++ [.add 1 twiceSum] ++ [.replaceState 0 onePlusTwo]) := by
      refine eachPass_concat.2 ⟨hcrossed, fun k h hp => ?_⟩
      simp [Event.Passes, Event.command?, onePlusTwo] at hp
    refine eachPass_concat.2 ⟨hreplaced, fun k h hp => ?_⟩
    obtain ⟨rfl, rfl⟩ := passes_twiceSum hp
    exact ⟨0, hsum [.add 1 twiceSum, .replaceState 0 onePlusTwo]⟩
  obtain ⟨hevent, hplanner⟩ := planners_hold_accepted_calls crossedSums hclone href
  obtain ⟨hsettled, -⟩ := hevent [.openNew, .openNew, .add 0 onePlusTwo] (.add 1 twiceSum) _ 1 _ _ rfl rfl rfl
  obtain ⟨hcommands, -, hdangling⟩ := hplanner crossedSums 0 doubledSum List.prefix_rfl rfl
  have hforeign := hsettled.foreign_iff.2 ⟨by simp, sumHandle, 0, by simp [twiceSum], by decide, hsum []⟩
  exact ⟨hclone, href, hforeign, rfl, hcommands, hdangling⟩

end CallPlan
