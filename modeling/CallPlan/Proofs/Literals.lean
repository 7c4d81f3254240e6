import CallPlan.Abi.AbiType.Reader
import CallPlan.Abi.Literal
import CallPlan.Proofs.Decoding
/-!
# The bytes of a literal

A literal is meant to be a value's own encoding: the offset word goes where there is one, and nothing else does.  The type
decides what goes and the value what is there.  They agree unless the type would have an offset and the value has nothing to
put in the tail, which needs an array of no elements: `usesOffset` looks through it, `standsInTail` does not.  So that is
exactly where a literal is not what it is meant to be (`encodeLiteral_eq_encoding_iff`).
-/
namespace CallPlan

open Token (Fits)

/-! ## The type and the value -/

mutual
theorem usesOffset_of_standsInTail : ∀ ty : AbiType, ty.standsInTail = true → ty.usesOffset = true
  | .address, h => h
  | .bool, h => h
  | .uint _, h => h
  | .int _, h => h
  | .fixedBytes _, h => h
  | .bytes, _ => rfl
  | .string, _ => rfl
  | .array _, _ => rfl
  | .fixedArray ty _, h => by
    rw [AbiType.standsInTail, Bool.and_eq_true] at h
    exact usesOffset_of_standsInTail ty h.2
  | .tuple tys, h => anyUsesOffset_of_anyStandsInTail tys h

theorem anyUsesOffset_of_anyStandsInTail : ∀ tys : List AbiType,
    AbiType.anyStandsInTail tys = true → AbiType.anyUsesOffset tys = true
  | [], h => h
  | ty :: tys, h => by
    rw [AbiType.anyStandsInTail, Bool.or_eq_true] at h
    rw [AbiType.anyUsesOffset, Bool.or_eq_true]
    exact h.imp (usesOffset_of_standsInTail ty) (anyUsesOffset_of_anyStandsInTail tys)
end

theorem encode_singleton (t : Token) :
    encode [t] = (if t.usesOffset then (Word.ofNat 32).bytes else []) ++ t.encoding := by
  unfold encode layout
  cases ht : t.usesOffset <;> simp [Token.parts, heads, tails, headLength, Part.head, Part.tail, Part.headLength, ht]

theorem encodeLiteral_of_fits {ty : AbiType} {t : Token} (h : t.Fits ty) :
    encodeLiteral ty t =
      if ty.usesOffset then
        if (encode [t]).length < 32 then .error (.noHeadWord ty.text) else .ok ((encode [t]).drop 32)
      else .ok (encode [t]) := by
  unfold encodeLiteral
  rw [show t.check ty = .ok () from h]

section
variable {ty : AbiType} {t u : Token}

/-- **Where type and value agree, a literal is the value's own encoding.** -/
theorem encodeLiteral_eq_encoding (h : t.Fits ty) (hty : ty.usesOffset = ty.standsInTail) :
    encodeLiteral ty t = .ok t.encoding := by
  have hagree : ty.usesOffset = t.usesOffset := hty.trans (usesOffset_eq ty h).symm
  rw [encodeLiteral_of_fits h, encode_singleton, hagree]
  cases t.usesOffset with
  | false => simp
  | true =>
    have hlen : ¬ ((Word.ofNat 32).bytes ++ t.encoding).length < 32 := by
      rw [List.length_append, (Word.ofNat 32).length_bytes]
      omega
    rw [if_pos rfl, if_pos rfl, if_neg hlen, List.drop_left' (Word.ofNat 32).length_bytes]

/-- **Where they do not, a literal has lost the first word of the value, or there is none to lose.** -/
theorem encodeLiteral_of_ne (h : t.Fits ty) (hty : ty.usesOffset ≠ ty.standsInTail) :
    ty.usesOffset = true ∧ t.usesOffset = false ∧
      encodeLiteral ty t =
        if t.encoding.length < 32 then .error (.noHeadWord ty.text) else .ok (t.encoding.drop 32) := by
  have hplace : ty.standsInTail = false := by
    cases hs : ty.standsInTail with
    | false => rfl
    | true => exact absurd ((usesOffset_of_standsInTail ty hs).trans hs.symm) hty
  have huses : ty.usesOffset = true := by
    rw [hplace] at hty
    exact Bool.ne_false_iff.1 hty
  have hvalue : t.usesOffset = false := (usesOffset_eq ty h).trans hplace
  refine ⟨huses, hvalue, ?_⟩
  rw [encodeLiteral_of_fits h, encode_singleton, huses, hvalue]
  rfl

theorem encodeLiteral_ne_encoding (h : t.Fits ty) (hty : ty.usesOffset ≠ ty.standsInTail) :
    encodeLiteral ty t ≠ .ok t.encoding := by
  rw [(encodeLiteral_of_ne h hty).2.2]
  split
  · intro he
    cases he
  · rename_i hlen
    intro he
    have := congrArg List.length (Except.ok.inj he)
    rw [List.length_drop] at this
    omega

end

/-! ## Literals -/

/-- **When a literal is the value's own encoding.**  For a value that fits its type, the type asks for an offset word exactly
where the value has one, the word is 32 and the literal is what stands behind it, or nothing stands in front and nothing is
dropped, if and only if the type has something to put in the tail whenever it asks for an offset.  Then values with the same
literal are the same up to tags.  For any other type the literal lacks the first word of the value, and where the encoding is
shorter than that there is no literal. -/
theorem encodeLiteral_eq_encoding_iff (ty : AbiType) (t : Token) (h : t.Fits ty) :
    (ty.usesOffset = t.usesOffset ∧
        encode [t] = (if ty.usesOffset then (Word.ofNat 32).bytes else []) ++ t.encoding ∧
        encodeLiteral ty t = .ok t.encoding ↔
      ty.usesOffset = ty.standsInTail) ∧
    (ty.usesOffset = ty.standsInTail → ∀ u : Token, u.Fits ty → t.countsFit = true → u.countsFit = true →
      (encode [t]).length < Word.modulus → encodeLiteral ty u = encodeLiteral ty t → u.untagged = t.untagged) ∧
    (ty.usesOffset ≠ ty.standsInTail → encodeLiteral ty t =
      if t.encoding.length < 32 then .error (.noHeadWord ty.text) else .ok (t.encoding.drop 32)) := by
  refine ⟨⟨fun hall => ?_, fun hty => ?_⟩, fun hty u hu hcount hcount' hlen heq => ?_, fun hty => ?_⟩
  · by_contra hty
    exact encodeLiteral_ne_encoding h hty hall.2.2
  · have hagree : ty.usesOffset = t.usesOffset := hty.trans (usesOffset_eq ty h).symm
    exact ⟨hagree, by rw [hagree]; exact encode_singleton t, encodeLiteral_eq_encoding h hty⟩
  · rw [encodeLiteral_eq_encoding h hty, encodeLiteral_eq_encoding hu hty] at heq
    -- values of one type have the same word in front, if any, so their sequences are alike
    have hencode : encode [u] = encode [t] := by
      rw [encode_singleton, encode_singleton, usesOffset_eq ty hu, usesOffset_eq ty h, Except.ok.inj heq]
    have hsame := untaggedAll_eq_of_encode_eq (.cons h .nil) (.cons hu .nil) (List.forall_mem_singleton.2 hcount)
      (List.forall_mem_singleton.2 hcount') hlen hencode
    exact (List.cons.inj hsame).1
  · exact (encodeLiteral_of_ne h hty).2.2

theorem encodeLiteral_eq_encoding_string :
    Fits (.string "ab") .string ∧ encodeLiteral .string (.string "ab") = .ok (Token.string "ab").encoding ∧
      ∀ u : Token, u.Fits .string → u.countsFit = true → encodeLiteral .string u = encodeLiteral .string (.string "ab") →
        u.untagged = .string "ab" := by
  have hfit : Fits (.string "ab") .string := rfl
  obtain ⟨hiff, hinj, -⟩ := encodeLiteral_eq_encoding_iff .string (.string "ab") hfit
  exact ⟨hfit, (hiff.2 rfl).2.2, fun u hu hcount => hinj rfl u hu rfl hcount (by decide +kernel)⟩

/-- **Arrays of no strings.**  The type can be read and its one value fits, and there is no literal.  Beside an integer there is
one, and it is the same for all integers. -/
theorem encodeLiteral_noStrings :
    AbiType.ofText "string[0]" = .ok (.fixedArray .string 0) ∧ Fits (.fixedArray []) (.fixedArray .string 0) ∧
    encodeLiteral (.fixedArray .string 0) (.fixedArray []) = .error (.noHeadWord "string[0]") ∧
    AbiType.ofText "(string[0],uint256)" = .ok (.tuple [.fixedArray .string 0, .uint 256]) ∧
    ∀ w : Word, Fits (.tuple [.fixedArray [], .uint w]) (.tuple [.fixedArray .string 0, .uint 256]) ∧
      encodeLiteral (.tuple [.fixedArray .string 0, .uint 256]) (.tuple [.fixedArray [], .uint w]) = .ok [] := by
  refine ⟨by decide +kernel, rfl, rfl, by decide +kernel, fun w => ?_⟩
  have hfit : Fits (.tuple [.fixedArray [], .uint w]) (.tuple [.fixedArray .string 0, .uint 256]) := rfl
  have hword : (Token.tuple [.fixedArray [], .uint w]).encoding = w.bytes := by
    simp [Token.encoding, Token.parts, layout, heads, tails, Token.usesOffset, Token.anyUsesOffset, Part.head, Part.tail]
  refine ⟨hfit, ?_⟩
  rw [(encodeLiteral_of_ne hfit (by decide)).2.2, hword, w.length_bytes, if_neg (Nat.lt_irrefl 32),
    List.drop_of_length_le (Nat.le_of_eq w.length_bytes)]

end CallPlan
