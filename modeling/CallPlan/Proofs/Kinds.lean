import CallPlan.Proofs.Signatures
import CallPlan.Proofs.Spellings
/-!
# Values of the right kind

Reading a JSON value at a type and checking the result against the type are two passes over the type.  They agree on kinds and
counts (`HasKind`): what the first gives, the second takes at every depth, up to the numbers at the leaves, an integer outside
its width or a byte string of another length (`Misfit`).  An object is of no kind, so it stands nowhere in a value that is read
(`ofJson_check`).
-/
namespace CallPlan

namespace Json

/-- **One value stands inside another**, at any depth of arrays and objects. -/
inductive Contains : Json → Json → Prop where
  | self (j : Json) : Contains j j
  | item {i k : Json} {items : List Json} : i ∈ items → Contains i k → Contains (.array items) k
  | member {key : String} {v k : Json} {members : List (String × Json)} :
      (key, v) ∈ members → Contains v k → Contains (.object members) k

end Json

namespace Token

/-- **The value is of the type's kind at every depth**, with as many members as the type has. -/
inductive HasKind : Token → AbiType → Prop where
  | address (a : Address) : HasKind (.address a) .address
  | bool (b : Bool) : HasKind (.bool b) .bool
  | uint (w : Word) (bits : Nat) : HasKind (.uint w) (.uint bits)
  | int (w : Word) (bits : Nat) : HasKind (.int w) (.int bits)
  | fixedBytes (bs : Bytes) (n : Nat) : HasKind (.fixedBytes bs) (.fixedBytes n)
  | bytes (bs : Bytes) : HasKind (.bytes bs) .bytes
  | string (s : String) : HasKind (.string s) .string
  | array {items : List Token} {ty : AbiType} : (∀ t ∈ items, HasKind t ty) → HasKind (.array items) (.array ty)
  | fixedArray {items : List Token} {ty : AbiType} {n : Nat} : items.length = n → (∀ t ∈ items, HasKind t ty) →
      HasKind (.fixedArray items) (.fixedArray ty n)
  | tuple {items : List Token} {tys : List AbiType} : items.length = tys.length →
      (∀ p ∈ items.zip tys, HasKind p.1 p.2) → HasKind (.tuple items) (.tuple tys)

/-- The members of a value with the types that they stand for. -/
def members : Token → AbiType → List (Token × AbiType)
  | .array items,      .array ty        => items.map (·, ty)
  | .fixedArray items, .fixedArray ty _ => items.map (·, ty)
  | .tuple items,      .tuple tys       => items.zip tys
  | _,                 _                => []

/-- **A value and a type that stand for each other inside a value and its type**, at any depth. -/
inductive Inside : Token → AbiType → Token → AbiType → Prop where
  | self (t : Token) (ty : AbiType) : Inside t ty t ty
  | member {t u : Token} {ty leaf : AbiType} {p : Token × AbiType} :
      p ∈ t.members ty → Inside p.1 p.2 u leaf → Inside t ty u leaf

/-- **A value of the right kind that is too large, too small, too long or too short.** -/
inductive Misfit : Token → AbiType → Prop where
  | integer {t : Token} {ty : AbiType} {v : Int} {bits : Nat} (value : t.integer? = some v) (width : ty.width? = some bits)
      (outside : ¬ ty.Spans v) : Misfit t ty
  | length {bs : Bytes} {n : Nat} (other : bs.length ≠ n) : Misfit (.fixedBytes bs) (.fixedBytes n)

/-! ## What is read has the kind of its type -/

section
variable {ty : AbiType} {tys : List AbiType} {j : Json} {js : List Json} {t : Token} {ts : List Token}

theorem ofJsonText_eq_ok_iff {α : Type} {f : String → Except Cause α} {a : α} :
    ofJsonText ty j f = .ok a ↔ ∃ s, j = .string s ∧ f s = .ok a := by
  cases j <;> simp [ofJsonText, Json.text?]

theorem uint_of_uintOfJson? (h : uintOfJson? j = some t) : ∃ w, t = .uint w := by
  unfold uintOfJson? at h
  split at h
  · cases h
    exact ⟨_, rfl⟩
  · obtain ⟨w, -, rfl⟩ := Option.map_eq_some_iff.1 h
    exact ⟨w, rfl⟩
  · cases h

theorem int_of_intOfJson? (h : intOfJson? j = some t) : ∃ w, t = .int w := by
  unfold intOfJson? at h
  split at h
  · split at h <;> cases h
    exact ⟨_, rfl⟩
  · obtain ⟨w, -, rfl⟩ := Option.map_eq_some_iff.1 h
    exact ⟨w, rfl⟩
  · cases h

end

mutual
theorem ofJson_hasKind : ∀ (ty : AbiType) {j : Json} {t : Token}, ofJson ty j = .ok t → HasKind t ty
  | .address, j, t, h => by
    rw [ofJson, ofJsonText_eq_ok_iff] at h
    obtain ⟨s, -, hs⟩ := h
    unfold addressOfText at hs
    split at hs <;> cases hs
    exact .address _
  | .bool, j, t, h => by
    rw [ofJson] at h
    split at h <;> cases h
    exact .bool _
  | .uint bits, j, t, h => by
    obtain ⟨w, rfl⟩ := uint_of_uintOfJson? (ofJson_uint_eq_ok_iff.1 h)
    exact .uint w bits
  | .int bits, j, t, h => by
    obtain ⟨w, rfl⟩ := int_of_intOfJson? (ofJson_int_eq_ok_iff.1 h)
    exact .int w bits
  | .fixedBytes n, j, t, h => by
    rw [ofJson, ofJsonText_eq_ok_iff] at h
    obtain ⟨s, -, hs⟩ := h
    obtain ⟨bs, -, rfl⟩ := map_eq_ok_iff.1 hs
    exact .fixedBytes bs n
  | .bytes, j, t, h => by
    rw [ofJson, ofJsonText_eq_ok_iff] at h
    obtain ⟨s, -, hs⟩ := h
    obtain ⟨bs, -, rfl⟩ := map_eq_ok_iff.1 hs
    exact .bytes bs
  | .string, j, t, h => by
    rw [ofJson, ofJsonText_eq_ok_iff] at h
    obtain ⟨s, -, hs⟩ := h
    cases hs
    exact .string s
  | .array ty, j, t, h => by
    cases j with
    | array js =>
      obtain ⟨ts, hts, rfl⟩ := ofJson_array.1 h
      exact .array (forall_mem_of_forall₂ hts fun _ _ => ofJson_hasKind ty)
    | _ => cases h
  | .fixedArray ty n, j, t, h => by
    cases j with
    | array js =>
      obtain ⟨hlen, ts, hts, rfl⟩ := ofJson_fixedArray.1 h
      exact .fixedArray (hts.length_eq.symm.trans hlen) (forall_mem_of_forall₂ hts fun _ _ => ofJson_hasKind ty)
    | _ => cases h
  | .tuple tys, j, t, h => by
    cases j with
    | array js =>
      obtain ⟨hlen, ts, hts, rfl⟩ := ofJson_tuple.1 h
      obtain ⟨hlen', hkinds⟩ := ofJsonEach_hasKind tys hlen hts
      exact .tuple hlen' hkinds
    | _ => cases h

theorem ofJsonEach_hasKind : ∀ (tys : List AbiType) {js : List Json} {ts : List Token}, js.length = tys.length →
    ofJsonEach tys js = .ok ts → ts.length = tys.length ∧ ∀ p ∈ ts.zip tys, HasKind p.1 p.2
  | [], js, ts, _, h => by
    simp only [ofJsonEach, Except.ok.injEq] at h
    simp [← h]
  | ty :: tys, [], _, hlen, _ => by cases hlen
  | ty :: tys, j :: js, ts, hlen, h => by
    obtain ⟨u, us, hu, hus, rfl⟩ := ofJsonEach_cons.1 h
    obtain ⟨hlen', hkinds⟩ := ofJsonEach_hasKind tys (Nat.succ.inj hlen) hus
    refine ⟨by simp [hlen'], ?_⟩
    rw [List.zip_cons_cons, List.forall_mem_cons]
    exact ⟨ofJson_hasKind ty hu, hkinds⟩
end

/-! ## What is read holds no object -/

theorem ofJson_object (ty : AbiType) (ms : List (String × Json)) :
    ofJson ty (.object ms) = .error (refusal ty (.object ms)) := by
  cases ty <;> simp [ofJson, ofJsonText, uintOfJson?, intOfJson?, Json.text?, Json.bool?, Json.items?]

theorem forall_ofJsonEach : ∀ {tys : List AbiType} {js : List Json} {ts : List Token}, js.length = tys.length →
    ofJsonEach tys js = .ok ts → ∀ j ∈ js, ∃ ty t, ofJson ty j = .ok t
  | [], [], _, _, _ => by simp
  | ty :: tys, j :: js, ts, hlen, h => by
    obtain ⟨u, us, hu, hus, -⟩ := ofJsonEach_cons.1 h
    rw [List.forall_mem_cons]
    exact ⟨⟨ty, u, hu⟩, forall_ofJsonEach (Nat.succ.inj hlen) hus⟩

theorem ofJson_item {ty : AbiType} {js : List Json} {t : Token} (h : ofJson ty (.array js) = .ok t) :
    ∀ j ∈ js, ∃ ty t, ofJson ty j = .ok t := by
  cases ty with
  | array ty =>
    obtain ⟨ts, hts, -⟩ := ofJson_array.1 h
    exact forall_mem_of_forall₂ hts.flip fun u j hj => ⟨ty, u, hj⟩
  | fixedArray ty n =>
    obtain ⟨-, ts, hts, -⟩ := ofJson_fixedArray.1 h
    exact forall_mem_of_forall₂ hts.flip fun u j hj => ⟨ty, u, hj⟩
  | tuple tys =>
    obtain ⟨hlen, ts, hts, -⟩ := ofJson_tuple.1 h
    exact forall_ofJsonEach hlen hts
  | _ => cases h

theorem ofJson_of_contains {j k : Json} (h : j.Contains k) {ms : List (String × Json)} (hk : k = .object ms) :
    ∀ ty, ∃ e, ofJson ty j = .error e := by
  induction h with
  | self j =>
    intro ty
    subst hk
    exact ⟨_, ofJson_object ty ms⟩
  | item hi _ ih =>
    intro ty
    cases hj : ofJson ty (.array _) with
    | error e => exact ⟨e, rfl⟩
    | ok t =>
      obtain ⟨ty', u, hu⟩ := ofJson_item hj _ hi
      obtain ⟨e, he⟩ := ih hk ty'
      rw [hu] at he
      cases he
  | member _ _ _ =>
    intro ty
    exact ⟨_, ofJson_object ty _⟩

/-! ## Checking a value of the right kind -/

theorem checkAll_cases {ty : AbiType} : ∀ ts : List Token,
    (checkAll ts ty = .ok () ∧ ∀ t ∈ ts, t.check ty = .ok ()) ∨
      ∃ t ∈ ts, ∃ e, t.check ty = .error e ∧ checkAll ts ty = .error e
  | [] => by simp [checkAll]
  | t :: ts => by
    rw [checkAll]
    cases ht : t.check ty with
    | error e => exact .inr ⟨t, List.mem_cons_self, e, ht, rfl⟩
    | ok u =>
      rcases checkAll_cases ts with ⟨hok, hall⟩ | ⟨v, hv, e, he, herr⟩
      · exact .inl ⟨hok, List.forall_mem_cons.2 ⟨ht, hall⟩⟩
      · exact .inr ⟨v, List.mem_cons_of_mem t hv, e, he, herr⟩

theorem checkEach_cases : ∀ {ts : List Token} {tys : List AbiType}, ts.length = tys.length →
    (checkEach ts tys = .ok () ∧ ∀ p ∈ ts.zip tys, p.1.check p.2 = .ok ()) ∨
      ∃ p ∈ ts.zip tys, ∃ e, p.1.check p.2 = .error e ∧ checkEach ts tys = .error e
  | [], [], _ => by simp [checkEach]
  | t :: ts, ty :: tys, hlen => by
    rw [checkEach, List.zip_cons_cons]
    cases ht : t.check ty with
    | error e => exact .inr ⟨(t, ty), List.mem_cons_self, e, ht, rfl⟩
    | ok u =>
      rcases checkEach_cases (Nat.succ.inj hlen) with ⟨hok, hall⟩ | ⟨v, hv, e, he, herr⟩
      · exact .inl ⟨hok, List.forall_mem_cons.2 ⟨ht, hall⟩⟩
      · exact .inr ⟨v, List.mem_cons_of_mem _ hv, e, he, herr⟩

/-- **A value fits, or the check names the type of a misfit in it.** -/
def FitsOrNames (t : Token) (ty : AbiType) : Prop :=
  (t.check ty = .ok () ∧ ∀ u leaf, Inside t ty u leaf → ¬ Misfit u leaf) ∨
    ∃ u leaf, Inside t ty u leaf ∧ Misfit u leaf ∧ t.check ty = .error (.outOfRange leaf.text)

section
variable {t : Token} {ty : AbiType} {items : List Token} {tys : List AbiType} {n : Nat}

theorem fitsOrNames_of_members (hself : ¬ Misfit t ty)
    (hcheck : (t.check ty = .ok () ∧ ∀ p ∈ t.members ty, p.1.check p.2 = .ok ()) ∨
      ∃ p ∈ t.members ty, ∃ e, p.1.check p.2 = .error e ∧ t.check ty = .error e)
    (hmembers : ∀ p ∈ t.members ty, FitsOrNames p.1 p.2) : FitsOrNames t ty := by
  rcases hcheck with ⟨hok, hall⟩ | ⟨p, hp, e, hpe, he⟩
  · refine .inl ⟨hok, fun u leaf hinside => ?_⟩
    cases hinside with
    | self => exact hself
    | member hp hrest =>
      rcases hmembers _ hp with ⟨-, hnone⟩ | ⟨_, _, -, -, herr⟩
      · exact hnone u leaf hrest
      · rw [hall _ hp] at herr
        cases herr
  · rcases hmembers p hp with ⟨hok, -⟩ | ⟨u, leaf, hinside, hmisfit, herr⟩
    · rw [hok] at hpe
      cases hpe
    · refine .inr ⟨u, leaf, .member hp hinside, hmisfit, ?_⟩
      rw [he, ← hpe, herr]

theorem fitsOrNames_of_leaf (hself : ¬ Misfit t ty) (hnone : t.members ty = []) (hok : t.check ty = .ok ()) :
    FitsOrNames t ty := by
  apply fitsOrNames_of_members hself
  · simp [hok, hnone]
  · simp [hnone]

theorem fitsOrNames_integer {v : Int} {bits : Nat} (ht : t.integer? = some v) (hty : ty.width? = some bits) (hw : IsWidth bits)
    (hnone : t.members ty = []) : FitsOrNames t ty := by
  obtain ⟨hin, hout⟩ := check_integer ht hty hw
  by_cases hspans : ty.Spans v
  · refine fitsOrNames_of_leaf (fun hmisfit => ?_) hnone (hin hspans)
    cases hmisfit with
    | integer value width outside =>
      rw [ht] at value
      cases value
      exact outside hspans
    | length _ => cases ht
  · exact .inr ⟨t, ty, .self t ty, .integer ht hty hspans, hout hspans⟩

theorem fitsOrNames_fixedBytes (bs : Bytes) (n : Nat) : FitsOrNames (.fixedBytes bs) (.fixedBytes n) := by
  by_cases hlen : bs.length = n
  · apply fitsOrNames_of_leaf
    · rintro (⟨⟨⟩, -, -⟩ | hother)
      exact hother hlen
    · rfl
    · simp [check, hlen]
  · exact .inr ⟨_, _, .self _ _, .length hlen, by simp [check, hlen]⟩

theorem fitsOrNames_array (h : ∀ t ∈ items, FitsOrNames t ty) : FitsOrNames (.array items) (.array ty) := by
  apply fitsOrNames_of_members
  · rintro ⟨⟨⟩, -, -⟩
  · simpa [members, check] using checkAll_cases items
  · simpa [members] using h

theorem fitsOrNames_fixedArray (hlen : items.length = n) (h : ∀ t ∈ items, FitsOrNames t ty) :
    FitsOrNames (.fixedArray items) (.fixedArray ty n) := by
  apply fitsOrNames_of_members
  · rintro ⟨⟨⟩, -, -⟩
  · simpa [members, check, hlen] using checkAll_cases items
  · simpa [members] using h

theorem fitsOrNames_tuple (hlen : items.length = tys.length) (h : ∀ p ∈ items.zip tys, FitsOrNames p.1 p.2) :
    FitsOrNames (.tuple items) (.tuple tys) := by
  apply fitsOrNames_of_members
  · rintro ⟨⟨⟩, -, -⟩
  · simpa [members, check, hlen] using checkEach_cases hlen
  · exact h

end

end Token

/-! ## Types that a text writes -/

namespace AbiType

section
variable {s : List Char} {ty : AbiType} {tys : List AbiType} {bits n : Nat}

theorem Derives.isWidth (h : Derives s ty) (hty : ty.width? = some bits) : IsWidth bits := by
  cases h with
  | base name =>
    cases name with
    | uint => cases hty; decide
    | int => cases hty; decide
    | uintOf _ width => cases hty; exact width
    | intOf _ width => cases hty; exact width
    | _ => cases hty
  | _ => cases hty

theorem Derives.element (h : Derives s (.array ty)) : ∃ e, Derives e ty := by
  cases h with
  | base name => cases name
  | array element => exact ⟨_, element⟩

theorem Derives.fixedElement (h : Derives s (.fixedArray ty n)) : ∃ e, Derives e ty := by
  cases h with
  | base name => cases name
  | fixedArray element _ => exact ⟨_, element⟩

theorem Derives.members (h : Derives s (.tuple tys)) : ∀ ty ∈ tys, Derives ty.chars ty := by
  cases h with
  | base name => cases name
  | tuple _ members => exact members.derives_chars

end

end AbiType

namespace Token

theorem HasKind.fitsOrNames {t : Token} {ty : AbiType} (h : HasKind t ty) :
    ∀ {s : List Char}, AbiType.Derives s ty → FitsOrNames t ty := by
  induction h with
  | address a => exact fun _ => fitsOrNames_of_leaf (by rintro ⟨⟨⟩, -, -⟩) rfl rfl
  | bool b => exact fun _ => fitsOrNames_of_leaf (by rintro ⟨⟨⟩, -, -⟩) rfl rfl
  | bytes bs => exact fun _ => fitsOrNames_of_leaf (by rintro ⟨⟨⟩, -, -⟩) rfl rfl
  | string s => exact fun _ => fitsOrNames_of_leaf (by rintro ⟨⟨⟩, -, -⟩) rfl rfl
  | uint w bits => exact fun hty => fitsOrNames_integer rfl rfl (hty.isWidth rfl) rfl
  | int w bits => exact fun hty => fitsOrNames_integer rfl rfl (hty.isWidth rfl) rfl
  | fixedBytes bs n => exact fun _ => fitsOrNames_fixedBytes bs n
  | array _ ih =>
    intro s hty
    obtain ⟨e, he⟩ := hty.element
    exact fitsOrNames_array fun t ht => ih t ht he
  | fixedArray hlen _ ih =>
    intro s hty
    obtain ⟨e, he⟩ := hty.fixedElement
    exact fitsOrNames_fixedArray hlen fun t ht => ih t ht he
  | tuple hlen _ ih =>
    intro s hty
    exact fitsOrNames_tuple hlen fun p hp => ih p hp (hty.members p.2 (List.of_mem_zip hp).2)

/-- **What is read is of the right kind.**  A value that is read at a type that can be written has the kind of the type at every
depth.  It passes the check and holds no misfit, or it is out of range for the type of a misfit in it: an integer outside its
width, or a byte string of another length.  A JSON value with an object anywhere in it is not read. -/
theorem ofJson_check {s : String} {ty : AbiType} (hty : AbiType.ofText s = .ok ty) (j : Json) :
    (∀ t, ofJson ty j = .ok t → HasKind t ty ∧
      ((t.check ty = .ok () ∧ ∀ u leaf, Inside t ty u leaf → ¬ Misfit u leaf) ∨
        ∃ u leaf, Inside t ty u leaf ∧ Misfit u leaf ∧ t.check ty = .error (.outOfRange leaf.text))) ∧
    ∀ ms, j.Contains (.object ms) → ∃ e, ofJson ty j = .error e := by
  refine ⟨fun t ht => ?_, fun ms hms => ofJson_of_contains hms rfl ty⟩
  have hkind := ofJson_hasKind ty ht
  exact ⟨hkind, hkind.fitsOrNames (AbiType.read_eq_ok_iff.1 hty)⟩

theorem ofJson_check_largeMember :
    AbiType.ofText "(uint8[],bytes2)" = .ok (.tuple [.array (.uint 8), .fixedBytes 2]) ∧
    ofJson (.tuple [.array (.uint 8), .fixedBytes 2])
      (.array [.array [.number (.integer 255), .number (.integer 256)], .string "0xabcd"]) =
        .ok (.tuple [.array [.ofNat 255, .ofNat 256], .fixedBytes [0xAB, 0xCD]]) ∧
    (∃ u leaf, Inside (.tuple [.array [.ofNat 255, .ofNat 256], .fixedBytes [0xAB, 0xCD]])
      (.tuple [.array (.uint 8), .fixedBytes 2]) u leaf ∧ Misfit u leaf ∧ leaf.text = "uint8") ∧
    ∃ e, ofJson (.tuple [.array (.uint 8), .fixedBytes 2])
      (.array [.array [.object [], .number (.integer 255)], .string "0xabcd"]) = .error e := by
  have htext : AbiType.ofText "(uint8[],bytes2)" = .ok (.tuple [.array (.uint 8), .fixedBytes 2]) := by decide +kernel
  have hread : ofJson (.tuple [.array (.uint 8), .fixedBytes 2])
      (.array [.array [.number (.integer 255), .number (.integer 256)], .string "0xabcd"]) =
      .ok (.tuple [.array [.ofNat 255, .ofNat 256], .fixedBytes [0xAB, 0xCD]]) := rfl
  have hcheck : check (.tuple [.array [.ofNat 255, .ofNat 256], .fixedBytes [0xAB, 0xCD]])
      (.tuple [.array (.uint 8), .fixedBytes 2]) = .error (.outOfRange "uint8") := by decide +kernel
  refine ⟨htext, hread, ?_, ?_⟩
  · obtain ⟨-, ⟨hok, -⟩ | ⟨u, leaf, hinside, hmisfit, herror⟩⟩ := (ofJson_check htext _).1 _ hread
    · rw [hcheck] at hok
      cases hok
    · rw [hcheck] at herror
      exact ⟨u, leaf, hinside, hmisfit, (AbiError.outOfRange.inj (Except.error.inj herror)).symm⟩
  · exact (ofJson_check htext _).2 [] (.item List.mem_cons_self (.item List.mem_cons_self (.self _)))

end Token
end CallPlan
