import CallPlan.Proofs.Drafts
import CallPlan.Proofs.Widths
/-!
# Building a call

A call is built from concrete values, which become literals, and symbolic ones, which go through as they are.  Whether an
argument suits its parameter depends on these two alone, and so does its error (`becomes_of_resolve`,
`argFault_of_resolve`).  So a call with the right number of arguments is built exactly when all of them suit, and is else
refused for the first that does not (`call_outcome`).
-/
namespace CallPlan

namespace Arg

/-- **The argument is of the declared type**: a concrete value fits it, a symbolic one has this type and no other. -/
def Suits (p : Param) : Arg → Prop
  | .token t => t.Fits p.kind
  | .value v => v.kind = p.kind

/-- **What an argument becomes in a call.** -/
inductive Becomes (p : Param) : Arg → Value → Prop where
  | literal {t : Token} {bs : Bytes} (encoded : encodeLiteral p.kind t = .ok bs) : Becomes p (.token t) (.literal p.kind bs)
  | symbol {v : Value} (same : v.kind = p.kind) : Becomes p (.value v) v

/-- Encoding the argument does not break off for want of a head word. -/
def Encodes (p : Param) (a : Arg) : Prop := ∀ t s, a = .token t → encodeLiteral p.kind t ≠ .error (.noHeadWord s)

section
variable {p : Param} {a : Arg} {v : Value}

theorem Becomes.kind_eq (h : a.Becomes p v) : v.kind = p.kind := by
  cases h with
  | literal _ => rfl
  | symbol same => exact same

theorem Becomes.suits (h : a.Becomes p v) : a.Suits p := by
  cases h with
  | literal encoded => exact Token.check_of_encodeLiteral encoded
  | symbol same => exact same

end

end Arg

namespace BoundFunction

/-- **The error of an argument that does not suit its parameter.** -/
inductive ArgFault (b : BoundFunction) (index : Nat) (p : Param) : Arg → ContractError → Prop where
  | invalid {t : Token} {e : AbiError} (refused : t.check p.kind = .error e) :
      ArgFault b index p (.token t) (.invalidArgument b.signature index e)
  | mismatch {v : Value} (other : v.kind ≠ p.kind) :
      ArgFault b index p (.value v) (.typeMismatch b.signature index p.kind.text v.kind.text)

/-- **`e` is the error of the first argument that does not suit its parameter.** -/
def FirstArgFault (b : BoundFunction) (args : List Arg) (e : ContractError) : Prop :=
  ∃ (k : Nat) (p : Param) (a : Arg), b.function.inputs[k]? = some p ∧ args[k]? = some a ∧ b.ArgFault k p a e ∧
    ∀ (m : Nat) (q : Param) (c : Arg), m < k → b.function.inputs[m]? = some q → args[m]? = some c → c.Suits q

/-! ## One argument -/

section
variable {b : BoundFunction} {n : Nat} {p : Param} {a : Arg} {v : Value} {e e' : ContractError}

theorem ArgFault.not_suits (h : b.ArgFault n p a e) : ¬ a.Suits p := by
  cases h with
  | invalid refused =>
    intro hfits
    rw [show _ = Except.ok () from hfits] at refused
    cases refused
  | mismatch other => exact other

theorem ArgFault.unique (h : b.ArgFault n p a e) (h' : b.ArgFault n p a e') : e = e' := by
  cases h with
  | invalid refused =>
    cases h' with
    | invalid refused' =>
      rw [refused] at refused'
      rw [Except.error.inj refused']
  | mismatch other =>
    cases h' with
    | mismatch _ => rfl

theorem becomes_of_resolve (h : b.resolve n p a = .ok v) : a.Becomes p v := by
  cases a with
  | token t =>
    simp only [resolve] at h
    split at h <;> cases h
    exact .literal (by assumption)
  | value u =>
    simp only [resolve] at h
    split at h <;> cases h
    exact .symbol (by assumption)

theorem argFault_of_resolve (hencodes : a.Encodes p) (h : b.resolve n p a = .error e) : b.ArgFault n p a e := by
  cases a with
  | token t =>
    simp only [resolve] at h
    split at h
    · cases h
    · rename_i ae hae
      cases h
      cases hcheck : t.check p.kind with
      | error ce =>
        rw [encodeLiteral, hcheck] at hae
        cases hae
        exact .invalid hcheck
      | ok u =>
        -- a value that fits is refused only where its head word is missing
        rw [encodeLiteral_of_fits hcheck] at hae
        split_ifs at hae with huses hshort
        cases hae
        refine absurd ?_ (hencodes t p.kind.text rfl)
        rw [encodeLiteral_of_fits hcheck, if_pos huses, if_pos hshort]
  | value u =>
    simp only [resolve] at h
    split at h <;> cases h
    exact .mismatch (by assumption)

end

/-! ## All arguments -/

section
variable {b : BoundFunction} {n k : Nat} {ps : List Param} {p : Param} {args : List Arg} {a : Arg} {vs : List Value} {v : Value}
  {call : Call} {e e' : ContractError}

theorem length_of_resolveFrom : ∀ {n : Nat} {ps : List Param} {args : List Arg} {vs : List Value},
    b.resolveFrom n ps args = .ok vs → ps.length = args.length → vs.length = args.length
  | _, [], [], vs, h, _ => by
    cases h
    rfl
  | n, p :: ps, a :: args, vs, h, hlen => by
    unfold resolveFrom at h
    split at h
    · cases h
    · split at h <;> cases h
      rename_i hvs
      simp [length_of_resolveFrom hvs (Nat.succ.inj hlen)]

/-- **The first argument that is refused gives the error.** -/
theorem resolveFrom_error : ∀ {n : Nat} {ps : List Param} {args : List Arg}, b.resolveFrom n ps args = .error e →
    ∃ k p a, ps[k]? = some p ∧ args[k]? = some a ∧ b.resolve (n + k) p a = .error e ∧
      ∀ m q c, m < k → ps[m]? = some q → args[m]? = some c → ∃ v, b.resolve (n + m) q c = .ok v
  | _, [], _, h => by cases h
  | _, _ :: _, [], h => by cases h
  | n, p :: ps, a :: args, h => by
    unfold resolveFrom at h
    split at h
    · rename_i hp
      cases h
      exact ⟨0, p, a, rfl, rfl, hp, fun m q c hm => absurd hm (Nat.not_lt_zero m)⟩
    · rename_i v hv
      split at h <;> cases h
      rename_i hrest
      obtain ⟨k, q, c, hq, hc, hfault, hbefore⟩ := resolveFrom_error hrest
      have hshift : ∀ m, n + (m + 1) = n + 1 + m := fun m => by omega
      refine ⟨k + 1, q, c, hq, hc, by rw [hshift, hfault], fun m r d hm hr hd => ?_⟩
      cases m with
      | zero =>
        cases hr
        cases hd
        exact ⟨v, hv⟩
      | succ m =>
        rw [hshift]
        exact hbefore m r d (Nat.lt_of_succ_lt_succ hm) hr hd

theorem FirstArgFault.unique (h : b.FirstArgFault args e) (h' : b.FirstArgFault args e') : e = e' := by
  obtain ⟨k, p, a, hp, ha, hfault, hbefore⟩ := h
  obtain ⟨k', p', a', hp', ha', hfault', hbefore'⟩ := h'
  rcases Nat.lt_trichotomy k k' with hlt | rfl | hlt
  · exact absurd (hbefore' k p a hlt hp ha) hfault.not_suits
  · rw [hp] at hp'
    rw [ha] at ha'
    cases hp'
    cases ha'
    exact hfault.unique hfault'
  · exact absurd (hbefore k' p' a' hlt hp' ha') hfault'.not_suits

/-- **The call carries the contract's function with what the arguments become.** -/
structure Carries (b : BoundFunction) (args : List Arg) (call : Call) : Prop where
  address : call.address = b.address
  function : call.function = b.function
  count : call.args.length = args.length
  becomes : ∀ (k : Nat) (p : Param) (a : Arg) (v : Value), b.function.inputs[k]? = some p → args[k]? = some a →
    call.args[k]? = some v → v.kind = p.kind ∧ a.Becomes p v

theorem carries_of_call (hlen : args.length = b.function.inputs.length) (h : b.call args = .ok call) : b.Carries args call := by
  obtain ⟨vs, hvs, rfl⟩ := call_ok h
  refine ⟨rfl, rfl, length_of_resolveFrom hvs hlen.symm, fun k p a v hp ha hv => ?_⟩
  obtain ⟨u, hu, hresolve⟩ := resolveFrom_getElem? hvs hp ha
  rw [hu] at hv
  cases hv
  have hbecomes := becomes_of_resolve hresolve
  exact ⟨hbecomes.kind_eq, hbecomes⟩

theorem firstArgFault_of_call (hlen : args.length = b.function.inputs.length)
    (hencodes : ∀ (k : Nat) (p : Param) (a : Arg), b.function.inputs[k]? = some p → args[k]? = some a → a.Encodes p)
    (h : b.call args = .error e) : b.FirstArgFault args e := by
  have herror : b.resolveFrom 0 b.function.inputs args = .error e := by
    rw [call, if_neg (not_not_intro hlen)] at h
    split at h <;> cases h
    assumption
  obtain ⟨k, p, a, hp, ha, hfault, hbefore⟩ := resolveFrom_error herror
  rw [Nat.zero_add] at hfault
  refine ⟨k, p, a, hp, ha, argFault_of_resolve (hencodes k p a hp ha) hfault, fun m q c hm hq hc => ?_⟩
  obtain ⟨v, hv⟩ := hbefore m q c hm hq hc
  exact (becomes_of_resolve hv).suits

theorem Carries.suits (h : b.Carries args call) (hp : b.function.inputs[k]? = some p) (ha : args[k]? = some a) :
    a.Suits p := by
  have hk : k < call.args.length := by
    rw [h.count]
    exact (List.getElem?_eq_some_iff.1 ha).1
  exact (h.becomes k p a _ hp ha (List.getElem?_eq_getElem hk)).2.suits

end

/-- **What becomes of a call.**  If no concrete argument lacks a head word to drop, a call is built exactly when there are as
many arguments as inputs and each suits its parameter.  It carries the address, the function and in each place a value of
the declared type, the given one or the literal.  It is refused for the number of arguments, and if that is right for the first
argument that does not suit. -/
theorem call_outcome (b : BoundFunction) (args : List Arg)
    (hencodes : ∀ (k : Nat) (p : Param) (a : Arg), b.function.inputs[k]? = some p → args[k]? = some a → a.Encodes p) :
    ((∃ call, b.call args = .ok call) ↔ args.length = b.function.inputs.length ∧
      ∀ (k : Nat) (p : Param) (a : Arg), b.function.inputs[k]? = some p → args[k]? = some a → a.Suits p) ∧
    (∀ call, b.call args = .ok call → b.Carries args call) ∧
    ∀ e, b.call args = .error e ↔
      (args.length ≠ b.function.inputs.length ∧ e = .arity b.signature b.function.inputs.length args.length) ∨
      (args.length = b.function.inputs.length ∧ b.FirstArgFault args e) := by
  by_cases hlen : args.length = b.function.inputs.length
  · have hcarries := fun (call : Call) (hcall : b.call args = .ok call) => carries_of_call hlen hcall
    have hfault := fun e => firstArgFault_of_call (e := e) hlen hencodes
    refine ⟨⟨fun ⟨call, hcall⟩ => ⟨hlen, fun k p a => (hcarries call hcall).suits⟩, fun ⟨_, hsuits⟩ => ?_⟩, hcarries,
      fun e => ⟨fun he => .inr ⟨hlen, hfault e he⟩, ?_⟩⟩
    · cases hcall : b.call args with
      | ok call => exact ⟨call, rfl⟩
      | error e =>
        obtain ⟨k, p, a, hp, ha, hbad, -⟩ := hfault e hcall
        exact absurd (hsuits k p a hp ha) hbad.not_suits
    · rintro (⟨hne, -⟩ | ⟨-, hfirst⟩)
      · exact absurd hlen hne
      · cases hcall : b.call args with
        | ok call =>
          obtain ⟨k, p, a, hp, ha, hbad, -⟩ := hfirst
          exact absurd ((hcarries call hcall).suits hp ha) hbad.not_suits
        | error e' => rw [(hfault e' hcall).unique hfirst]
  · have harity : b.call args = .error (.arity b.signature b.function.inputs.length args.length) := if_pos hlen
    simp [harity, hlen, eq_comm]

/-- A function of two texts. -/
def joinTexts : BoundFunction := ⟨Block.fill 20 0xEE, ⟨"join", [⟨"a", .string⟩, ⟨"b", .string⟩], [⟨"", .string⟩]⟩⟩

theorem call_outcome_joinTexts :
    (∃ call, joinTexts.call [.token (.string "a"), .value (.result ⟨.string, ⟨0, 0⟩⟩)] = .ok call ∧
      joinTexts.Carries [.token (.string "a"), .value (.result ⟨.string, ⟨0, 0⟩⟩)] call) ∧
    joinTexts.call [.token (.string "a"), .token (.ofNat 7)] =
      .error (.invalidArgument "join(string,string)" 1 (.typeMismatch "string" "uint")) := by
  have htext : (Arg.token (.string "a")).Encodes ⟨"a", .string⟩ := by
    rintro t s ⟨⟩ h
    cases h
  have hsymbol : (Arg.value (.result ⟨.string, ⟨0, 0⟩⟩)).Encodes ⟨"b", .string⟩ := by
    rintro t s ⟨⟩
  have hnumber : (Arg.token (.ofNat 7)).Encodes ⟨"b", .string⟩ := by
    rintro t s ⟨⟩ h
    cases h
  constructor
  · obtain ⟨hbuilt, hcarries, -⟩ := call_outcome joinTexts [.token (.string "a"), .value (.result ⟨.string, ⟨0, 0⟩⟩)] <| by
      rintro (_ | _ | k) p a ⟨⟩ ⟨⟩
      · exact htext
      · exact hsymbol
    obtain ⟨call, hcall⟩ := hbuilt.2 ⟨rfl, by rintro (_ | _ | k) p a ⟨⟩ ⟨⟩ <;> rfl⟩
    exact ⟨call, hcall, hcarries call hcall⟩
  · refine ((call_outcome joinTexts [.token (.string "a"), .token (.ofNat 7)] ?_).2.2 _).2 (.inr ⟨rfl, ?_⟩)
    · rintro (_ | _ | k) p a ⟨⟩ ⟨⟩
      · exact htext
      · exact hnumber
    · refine ⟨1, ⟨"b", .string⟩, _, rfl, rfl, .invalid rfl, ?_⟩
      intro m q c hm hq hc
      obtain rfl : m = 0 := by omega
      cases hq
      cases hc
      rfl

end BoundFunction
end CallPlan
