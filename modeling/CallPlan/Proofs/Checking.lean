import CallPlan.Abi.Token.Check
import CallPlan.Proofs.Layout
import Mathlib.Data.List.Forall2
/-!
# Values that fit their types

A value that fits a type has the type's form, and so have its members (`Fits.cases`).  So the type alone tells where a value
goes in a layout: whether it stands in the tail (`usesOffset_eq`), and how many bytes it takes in the head
(`headLength_part`).
-/
namespace CallPlan
namespace Token

/-- **The value passes the check against the type.** -/
def Fits (t : Token) (ty : AbiType) : Prop := t.check ty = .ok ()

instance (t : Token) (ty : AbiType) : Decidable (t.Fits ty) := inferInstanceAs (Decidable (t.check ty = .ok ()))

/-- The forms of a value and its type that go together. -/
inductive Formed : Token → AbiType → Prop where
  | address (a : Address) : Formed (.address a) .address
  | bool (b : Bool) : Formed (.bool b) .bool
  | uint (w : Word) (bits : Nat) : Formed (.uint w) (.uint bits)
  | intAsUint (w : Word) (bits : Nat) : Formed (.int w) (.uint bits)
  | uintAsInt (w : Word) (bits : Nat) : Formed (.uint w) (.int bits)
  | int (w : Word) (bits : Nat) : Formed (.int w) (.int bits)
  | fixedBytes (bs : Bytes) : Formed (.fixedBytes bs) (.fixedBytes bs.length)
  | bytes (bs : Bytes) : Formed (.bytes bs) .bytes
  | string (s : String) : Formed (.string s) .string
  | array {items : List Token} {ty : AbiType} : (∀ t ∈ items, t.Fits ty) → Formed (.array items) (.array ty)
  | fixedArray {items : List Token} {ty : AbiType} : (∀ t ∈ items, t.Fits ty) →
      Formed (.fixedArray items) (.fixedArray ty items.length)
  | tuple {items : List Token} {tys : List AbiType} : List.Forall₂ Fits items tys → Formed (.tuple items) (.tuple tys)

theorem checkAll_ok {ty : AbiType} : ∀ {ts : List Token}, checkAll ts ty = .ok () → ∀ t ∈ ts, t.Fits ty
  | [], _, _, ht => by cases ht
  | u :: ts, h, t, ht => by
    unfold checkAll at h
    split at h
    · rename_i hu
      rcases List.mem_cons.1 ht with rfl | ht
      · exact hu
      · exact checkAll_ok h t ht
    · cases h

theorem checkEach_ok : ∀ {ts : List Token} {tys : List AbiType}, ts.length = tys.length → checkEach ts tys = .ok () →
    List.Forall₂ Fits ts tys
  | [], [], _, _ => .nil
  | t :: ts, ty :: tys, hlen, h => by
    unfold checkEach at h
    split at h
    · rename_i ht
      exact .cons ht (checkEach_ok (Nat.succ.inj hlen) h)
    · cases h

/-- **A value that fits has the form of its type, and its members fit theirs.** -/
theorem Fits.cases {t : Token} {ty : AbiType} (h : t.Fits ty) : Formed t ty := by
  unfold Fits check at h
  split at h
  · exact .address _
  · exact .bool _
  · exact .bytes _
  · exact .string _
  · exact .uint _ _
  · exact .intAsUint _ _
  · exact .uintAsInt _ _
  · exact .int _ _
  · split at h
    · rename_i hlen
      exact hlen ▸ .fixedBytes _
    · cases h
  · exact .array (checkAll_ok h)
  · split at h
    · rename_i hlen
      exact hlen ▸ .fixedArray (checkAll_ok h)
    · cases h
  · split at h
    · rename_i hlen
      exact .tuple (checkEach_ok hlen h)
    · cases h
  · cases h

/-- The value as a member of a sequence. -/
def part (t : Token) : Part := ⟨t.usesOffset, t.encoding⟩

theorem parts_eq_map : ∀ ts : List Token, parts ts = ts.map part
  | [] => rfl
  | t :: ts => by rw [parts, parts_eq_map ts]; rfl

theorem anyUsesOffset_eq_any : ∀ ts : List Token, anyUsesOffset ts = ts.any usesOffset
  | [] => rfl
  | t :: ts => by rw [anyUsesOffset, anyUsesOffset_eq_any ts, List.any_cons]

end Token

open Token (Fits)

/-! ## In the tail or in place -/

theorem any_of_forall {α : Type} {f : α → Bool} {b : Bool} : ∀ {l : List α}, (∀ a ∈ l, f a = b) →
    l.any f = (l.length != 0 && b)
  | [], _ => rfl
  | a :: l, h => by
    rw [List.any_cons, h a List.mem_cons_self, any_of_forall fun c hc => h c (List.mem_cons_of_mem a hc)]
    cases b <;> simp

mutual
/-- **The type tells whether a value that fits stands in the tail.** -/
theorem usesOffset_eq : ∀ (ty : AbiType) {t : Token}, t.Fits ty → t.usesOffset = ty.standsInTail
  | .address, t, h => by cases h.cases; rfl
  | .bool, t, h => by cases h.cases; rfl
  | .uint n, t, h => by cases h.cases <;> rfl
  | .int n, t, h => by cases h.cases <;> rfl
  | .fixedBytes n, t, h => by cases h.cases; rfl
  | .bytes, t, h => by cases h.cases; rfl
  | .string, t, h => by cases h.cases; rfl
  | .array ty, t, h => by cases h.cases; rfl
  | .fixedArray ty n, t, h => by
    cases h.cases with
    | fixedArray hall =>
      rw [Token.usesOffset, AbiType.standsInTail, Token.anyUsesOffset_eq_any]
      exact any_of_forall fun u hu => usesOffset_eq ty (hall u hu)
  | .tuple tys, t, h => by
    cases h.cases with
    | tuple hall => exact anyUsesOffset_eq tys hall

theorem anyUsesOffset_eq : ∀ (tys : List AbiType) {ts : List Token}, List.Forall₂ Fits ts tys →
    Token.anyUsesOffset ts = AbiType.anyStandsInTail tys
  | [], _, .nil => rfl
  | ty :: tys, _, .cons h hs => by
    rw [Token.anyUsesOffset, AbiType.anyStandsInTail, usesOffset_eq ty h, anyUsesOffset_eq tys hs]
end

/-! ## Room in the head -/

theorem tails_parts {ts : List Token} (h : Token.anyUsesOffset ts = false) : tails (Token.parts ts) = [] := by
  rw [Token.anyUsesOffset_eq_any, List.any_eq_false] at h
  rw [Token.parts_eq_map, tails, List.flatMap_eq_nil_iff]
  intro p hp
  obtain ⟨t, ht, rfl⟩ := List.mem_map.1 hp
  have : t.usesOffset = false := by simpa using h t ht
  simp [Part.tail, Token.part, this]

theorem headLength_parts_of_forall {n : Nat} : ∀ {ts : List Token}, (∀ t ∈ ts, t.part.headLength = n) →
    headLength (Token.parts ts) = ts.length * n
  | [], _ => by simp [Token.parts, headLength]
  | t :: ts, h => by
    have ht : t.part.headLength = n := h t List.mem_cons_self
    have ih := headLength_parts_of_forall fun u hu => h u (List.mem_cons_of_mem t hu)
    rw [Token.parts, headLength, ih, List.length_cons, Nat.succ_mul, Nat.add_comm]
    exact congrArg _ ht

theorem headLength_of_length {ty : AbiType} {t : Token} (h : t.Fits ty)
    (hlen : ty.standsInTail = false → t.encoding.length = ty.placeSize) : t.part.headLength = ty.headSize := by
  unfold Part.headLength AbiType.headSize
  rw [Token.part, usesOffset_eq ty h]
  split
  · rfl
  · rename_i hin
    exact hlen (Bool.not_eq_true _ ▸ hin)

theorem length_layout_parts {ts : List Token} (h : Token.anyUsesOffset ts = false) :
    (layout (Token.parts ts)).length = headLength (Token.parts ts) := by
  rw [length_layout, tails_parts h, List.length_nil, Nat.add_zero]

mutual
theorem length_encoding : ∀ (ty : AbiType) {t : Token}, t.Fits ty → ty.standsInTail = false →
    t.encoding.length = ty.placeSize
  | .address, t, h, _ => by cases h.cases; simp [Token.encoding, AbiType.placeSize, Block.length_bytes]
  | .bool, t, h, _ => by cases h.cases; simp [Token.encoding, AbiType.placeSize, Block.length_bytes]
  | .uint n, t, h, _ => by cases h.cases <;> simp [Token.encoding, AbiType.placeSize, Block.length_bytes]
  | .int n, t, h, _ => by cases h.cases <;> simp [Token.encoding, AbiType.placeSize, Block.length_bytes]
  | .fixedBytes n, t, h, _ => by
    cases h.cases with
    | fixedBytes bs => rw [Token.encoding, length_padToWords, AbiType.placeSize]
  | .bytes, _, _, hin => by cases hin
  | .string, _, _, hin => by cases hin
  | .array ty, _, _, hin => by cases hin
  | .fixedArray ty n, t, h, hin => by
    rw [← usesOffset_eq _ h] at hin
    cases h.cases with
    | fixedArray hall =>
      rw [Token.encoding, length_layout_parts hin, AbiType.placeSize]
      exact headLength_parts_of_forall fun u hu => headLength_of_length (hall u hu) (length_encoding ty (hall u hu))
  | .tuple tys, t, h, hin => by
    rw [← usesOffset_eq _ h] at hin
    cases h.cases with
    | tuple hall => rw [Token.encoding, length_layout_parts hin, AbiType.placeSize, headLength_parts tys hall]

theorem headLength_parts : ∀ (tys : List AbiType) {ts : List Token}, List.Forall₂ Fits ts tys →
    headLength (Token.parts ts) = AbiType.placeSizes tys
  | [], _, .nil => rfl
  | ty :: tys, _, .cons h hs => by
    rw [Token.parts, headLength, AbiType.placeSizes, headLength_parts tys hs]
    exact congrArg (· + _) (headLength_of_length h (length_encoding ty h))
end

/-- **The type tells how many bytes a value that fits takes in the head.** -/
theorem headLength_part {ty : AbiType} {t : Token} (h : t.Fits ty) : t.part.headLength = ty.headSize :=
  headLength_of_length h (length_encoding ty h)

end CallPlan
