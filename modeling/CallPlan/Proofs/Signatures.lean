import CallPlan.Proofs.Fragments
/-!
# Signatures are a normal form

A fragment can be written in many ways; its canonical signature in one.  A signature is a fragment without decorations, so it
is read back as the name and the input types that it was written from (`read?_signatureChars`), and two signatures are the same
only if these are (`signature_normal_form`).
-/
namespace CallPlan

open Text (joinWith)
open AbiType (Derives)

namespace Function

/-- **A name that a fragment can have, and input types that can be written in it.** -/
structure Writable (f : Function) : Prop where
  name_ne_nil : f.name.toList ≠ []
  name_chars : ∀ c ∈ f.name.toList, isNameChar c = true
  derives : ∀ ty ∈ f.inputTypes, Derives ty.chars ty

theorem derives_of_readList? {s : List Char} {ps : List Param} (h : Param.readList? s = some ps) :
    ∀ ty ∈ ps.map Param.kind, Derives ty.chars ty := by
  intro ty hty
  obtain ⟨p, hp, rfl⟩ := List.mem_map.1 hty
  have hall : ∀ q ∈ ps, Derives q.kind.chars q.kind :=
    forall_mem_of_forall₂ (mapM_eq_some_iff.1 h) fun _ _ hread => Param.derives_of_read? hread
  exact hall p hp

theorem writable_of_read? {s : List Char} {f : Function} (h : read? s = some f) : f.Writable := by
  obtain ⟨_, _, _, _, -, -, hname, -, hinputs, -⟩ := parts_of_read? h
  exact ⟨hname.1, hname.2, derives_of_readList? hinputs⟩

theorem signatureChars_eq (f : Function) :
    f.signatureChars = f.name.toList ++ '(' :: (joinWith [','] (AbiType.charsAll f.inputTypes) ++ [')']) := by
  rw [signatureChars, List.append_assoc, List.cons_append]

theorem Writable.writes_signatureChars {f : Function} (h : f.Writable) :
    Writes f.signatureChars ⟨f.name, f.inputTypes.map Param.unnamed, []⟩ := by
  have hinputs := Param.writesList_of_derivesAll (AbiType.derivesAll_charsAll h.derives)
  have hwrites : Writes ([] ++ ([] ++ (f.name.toList ++ '(' ::
      (joinWith [','] (AbiType.charsAll f.inputTypes) ++ ')' :: []))) ++ []) ⟨f.name, f.inputTypes.map Param.unnamed, []⟩ :=
    .fragment rfl (.inl rfl) ⟨h.name_ne_nil, h.name_chars⟩ hinputs (.none .nil (by simp)) rfl
  simpa [signatureChars_eq] using hwrites

/-- **A signature is read back as what it was written from.** -/
theorem read?_signatureChars {f : Function} (h : f.Writable) :
    read? f.signatureChars = some ⟨f.name, f.inputTypes.map Param.unnamed, []⟩ :=
  h.writes_signatureChars.read?_eq

theorem writable_of_ofText {s : String} {f : Function} (h : ofText s = .ok f) : f.Writable := by
  unfold ofText at h
  split at h <;> cases h
  rename_i hread
  exact writable_of_read? hread

theorem Writable.ofText_signature {f : Function} (h : f.Writable) :
    ofText f.signature = .ok ⟨f.name, f.inputTypes.map Param.unnamed, []⟩ := by
  rw [ofText, signature, String.toList_ofList, read?_signatureChars h]

/-- **Canonical signatures are a normal form.**  The signature of a fragment is read as a function of the same name and input
types, without outputs, whose signature it is again.  Two fragments have the same signature exactly when they have the same
name and the same input types. -/
theorem signature_normal_form (s s' : String) (f f' : Function) (h : ofText s = .ok f) (h' : ofText s' = .ok f') :
    (∃ g, ofText f.signature = .ok g ∧ g.name = f.name ∧ g.inputTypes = f.inputTypes ∧ g.outputs = [] ∧
      g.signature = f.signature ∧ g.selector = f.selector) ∧
    (f.signature = f'.signature ↔ f.name = f'.name ∧ f.inputTypes = f'.inputTypes) := by
  have hf := (writable_of_ofText h).ofText_signature
  have hf' := (writable_of_ofText h').ofText_signature
  constructor
  · have htypes : inputTypes ⟨f.name, f.inputTypes.map Param.unnamed, []⟩ = f.inputTypes := map_kind_unnamed _
    have hsignature : signature ⟨f.name, f.inputTypes.map Param.unnamed, []⟩ = f.signature := by
      rw [signature, signature, signatureChars, signatureChars, htypes]
    exact ⟨_, hf, rfl, htypes, rfl, hsignature, congrArg selectorOf hsignature⟩
  · constructor
    · intro heq
      rw [heq, hf'] at hf
      obtain ⟨hname, hinputs, -⟩ := Function.mk.inj (Except.ok.inj hf)
      refine ⟨hname.symm, ?_⟩
      rw [← map_kind_unnamed f.inputTypes, ← hinputs, map_kind_unnamed]
    · rintro ⟨hname, htypes⟩
      rw [signature, signature, signatureChars, signatureChars, hname, htypes]

theorem signature_normal_form_pay :
    ofText "function pay(tuple(address to, uint)[] memory list) external returns (bool)" =
        .ok ⟨"pay", [⟨"list", .array (.tuple [.address, .uint 256])⟩], [⟨"", .bool⟩]⟩ ∧
      ofText " pay ((address,uint256 n)[02])" = .ok ⟨"pay", [⟨"", .fixedArray (.tuple [.address, .uint 256]) 2⟩], []⟩ ∧
      (∃ g, ofText "pay((address,uint256)[])" = .ok g ∧ g.outputs = []) ∧
      signature ⟨"pay", [⟨"list", .array (.tuple [.address, .uint 256])⟩], [⟨"", .bool⟩]⟩ ≠
        signature ⟨"pay", [⟨"", .fixedArray (.tuple [.address, .uint 256]) 2⟩], []⟩ := by
  have hlist : ofText "function pay(tuple(address to, uint)[] memory list) external returns (bool)" =
      .ok ⟨"pay", [⟨"list", .array (.tuple [.address, .uint 256])⟩], [⟨"", .bool⟩]⟩ := by decide +kernel
  have hpair : ofText " pay ((address,uint256 n)[02])" =
      .ok ⟨"pay", [⟨"", .fixedArray (.tuple [.address, .uint 256]) 2⟩], []⟩ := by decide +kernel
  obtain ⟨⟨g, hg, -, -, hout, -⟩, hiff⟩ := signature_normal_form _ _ _ _ hlist hpair
  refine ⟨hlist, hpair, ⟨g, hg, hout⟩, fun heq => ?_⟩
  exact absurd (hiff.1 heq).2 (by decide)

end Function
end CallPlan
