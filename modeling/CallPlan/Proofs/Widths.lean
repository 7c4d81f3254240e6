import CallPlan.Proofs.Literals
import CallPlan.Proofs.Words
import Mathlib.Algebra.Order.Ring.Int
/-!
# Integers of a width

The check of an integer looks at the bytes of its word: those that the width leaves unused, and the first bit of those that it
uses.  Read as arithmetic, unused zeros say that the number is below `2 ^ bits`, unused `0xFF` that it lies that close below
`2 ^ 256`, and the bit which half of the width the remainder is in.  So a value passes exactly when the integer it stands for
is in the range of the type (`check_integer`), whichever way value and type read their words.
-/
namespace CallPlan

/-- **The widths of integer types.** -/
def IsWidth (bits : Nat) : Prop := bits % 8 = 0 ∧ 8 ≤ bits ∧ bits ≤ 256

instance (bits : Nat) : Decidable (IsWidth bits) := inferInstanceAs (Decidable (_ ∧ _))

/-! ## A width and its powers -/

section
variable {bits : Nat}

theorem IsWidth.unused_lt (h : IsWidth bits) : 32 - bits / 8 < 32 := by
  obtain ⟨-, hlow, -⟩ := h
  omega

theorem IsWidth.pow_eq (h : IsWidth bits) : 256 ^ (32 - (32 - bits / 8)) = 2 ^ bits := by
  obtain ⟨hmod, -, hhigh⟩ := h
  rw [show 256 = 2 ^ 8 from rfl, ← pow_mul]
  congr 1
  omega

theorem IsWidth.half_pow_eq (h : IsWidth bits) : 128 * 256 ^ (31 - (32 - bits / 8)) = 2 ^ (bits - 1) := by
  obtain ⟨hmod, hlow, hhigh⟩ := h
  rw [show 256 = 2 ^ 8 from rfl, show 128 = 2 ^ 7 from rfl, ← pow_mul, ← pow_add]
  congr 1
  omega

theorem IsWidth.double_half (h : IsWidth bits) : 2 ^ bits = 2 * 2 ^ (bits - 1) := by
  obtain ⟨-, hlow, -⟩ := h
  rw [← pow_succ']
  congr 1
  omega

theorem IsWidth.half_le (h : IsWidth bits) : 2 ^ (bits - 1) ≤ Word.half := by
  obtain ⟨-, -, hhigh⟩ := h
  exact Nat.pow_le_pow_right (by decide) (by omega)

theorem IsWidth.pow_dvd (h : IsWidth bits) : 2 ^ bits ∣ Word.modulus := Nat.pow_dvd_pow 2 h.2.2

theorem IsWidth.pow_le (h : IsWidth bits) : 2 ^ bits ≤ Word.modulus := Nat.le_of_dvd (by decide) h.pow_dvd

end

namespace AbiType

/-- The width that an integer type declares. -/
def width? : AbiType → Option Nat
  | .uint bits => some bits
  | .int bits  => some bits
  | _          => none

/-- **The range of an integer type.** -/
def Spans : AbiType → Int → Prop
  | .uint bits, v => 0 ≤ v ∧ v < 2 ^ bits
  | .int bits,  v => -2 ^ (bits - 1) ≤ v ∧ v < 2 ^ (bits - 1)
  | _,          _ => False

instance : ∀ (ty : AbiType) (v : Int), Decidable (ty.Spans v)
  | .uint _, _ => inferInstanceAs (Decidable (_ ∧ _))
  | .int _, _ => inferInstanceAs (Decidable (_ ∧ _))
  | .address, _ | .bool, _ | .fixedBytes _, _ | .bytes, _ | .string, _ | .array _, _ | .fixedArray _ _, _ | .tuple _, _ =>
    .isFalse id

theorem spans_uint {bits : Nat} {v : Int} : (AbiType.uint bits).Spans v ↔ 0 ≤ v ∧ v < ((2 ^ bits : Nat) : Int) := by
  rw [Spans, Nat.cast_pow]
  rfl

theorem spans_int {bits : Nat} {v : Int} :
    (AbiType.int bits).Spans v ↔ -((2 ^ (bits - 1) : Nat) : Int) ≤ v ∧ v < ((2 ^ (bits - 1) : Nat) : Int) := by
  rw [Spans, Nat.cast_pow]
  rfl

end AbiType

namespace Token

/-- The integer that a value stands for, by the way its tag reads the word. -/
def integer? : Token → Option Int
  | .uint w => some w.toNat
  | .int w  => some w.toInt
  | _       => none

/-! ## Bytes in front -/

theorem all_zero_take_iff (bs : Bytes) (n : Nat) :
    (bs.take n).all (· == 0) = true ↔ ofBigEndian bs < 256 ^ (bs.length - n) := by
  rw [all_zero_iff, ofBigEndian_take, Nat.div_eq_zero_iff_lt (pow_pos (by decide) _)]

theorem leadsWith_zero_iff (w : Word) (n : Nat) : leadsWith 0 n w = true ↔ w.toNat < 256 ^ (32 - n) := by
  have h := all_zero_take_iff w.bytes n
  rwa [w.length_bytes] at h

theorem leadsWith_full_iff (w : Word) (n : Nat) : leadsWith 0xFF n w = true ↔ Word.modulus ≤ w.toNat + 256 ^ (32 - n) := by
  -- the bytes are full exactly where those of the complement are zero
  have hall : leadsWith 0xFF n w = ((w.bytes.map (~~~ ·)).take n).all (· == 0) := by
    rw [leadsWith, all_full_eq, List.map_take]
  have hnot := ofBigEndian_map_not w.bytes
  rw [w.length_bytes, show ofBigEndian w.bytes = w.toNat from rfl] at hnot
  rw [hall, all_zero_take_iff, List.length_map, w.length_bytes, Word.modulus_eq]
  omega

theorem signAt_iff (w : Word) {n : Nat} (h : n < 32) :
    signAt n w = true ↔ 128 * 256 ^ (31 - n) ≤ w.toNat % 256 ^ (32 - n) := by
  have hlen : n < w.bytes.length := by rwa [w.length_bytes]
  have hrest := ofBigEndian_lt (w.bytes.drop (n + 1))
  have hvalue := ofBigEndian_drop w.bytes n
  rw [List.drop_eq_getElem_cons hlen, ofBigEndian_cons] at hvalue
  rw [List.length_drop, w.length_bytes, show 32 - (n + 1) = 31 - n by omega] at hvalue hrest
  rw [signAt, decide_eq_true_eq, List.getD_eq_getElem?_getD, List.getElem?_eq_getElem hlen, Option.getD_some, Word.toNat, ← hvalue]
  constructor
  · intro hbit
    exact Nat.le_add_right_of_le (Nat.mul_le_mul_right _ hbit)
  · intro hle
    by_contra hbit
    have hmul := Nat.mul_le_mul_right (256 ^ (31 - n)) (Nat.lt_of_not_le hbit)
    rw [Nat.succ_mul] at hmul
    omega

/-! ## The four checks -/

section
variable {bits : Nat} {w : Word}

theorem natFitsUint_iff (h : IsWidth bits) :
    natFitsUint (32 - bits / 8) w = true ↔ (AbiType.uint bits).Spans w.toNat := by
  rw [natFitsUint, leadsWith_zero_iff, h.pow_eq, AbiType.spans_uint]
  omega

theorem intFitsUint_iff (h : IsWidth bits) :
    intFitsUint (32 - bits / 8) w = true ↔ (AbiType.uint bits).Spans w.toInt := by
  have hlt := w.toNat_lt
  have hint := w.toInt_cases
  rw [intFitsUint, Bool.and_eq_true, Bool.not_eq_true', ← Bool.not_eq_true, Word.topBit_iff, leadsWith_zero_iff, h.pow_eq,
    AbiType.spans_uint]
  omega

theorem natFitsInt_iff (h : IsWidth bits) :
    natFitsInt (32 - bits / 8) w = true ↔ (AbiType.int bits).Spans w.toNat := by
  have hdouble := h.double_half
  rw [natFitsInt, Bool.and_eq_true, Bool.not_eq_true', ← Bool.not_eq_true, leadsWith_zero_iff, signAt_iff w h.unused_lt,
    h.pow_eq, h.half_pow_eq, AbiType.spans_int]
  by_cases hlt : w.toNat < 2 ^ bits
  · rw [Nat.mod_eq_of_lt hlt]
    omega
  · omega

theorem intFitsInt_iff (h : IsWidth bits) :
    intFitsInt (32 - bits / 8) w = true ↔ (AbiType.int bits).Spans w.toInt := by
  have hlt := w.toNat_lt
  have hint := w.toInt_cases
  have hdouble := h.double_half
  have hhalf := h.half_le
  have hmodulus : Word.modulus = 2 * Word.half := rfl
  -- the remainder is the number itself at the lower end, and counts from `modulus - 2 ^ bits` at the upper
  have hlower : w.toNat < 2 ^ bits → w.toNat % 2 ^ bits = w.toNat := Nat.mod_eq_of_lt
  have hupper : Word.modulus ≤ w.toNat + 2 ^ bits → w.toNat % 2 ^ bits + Word.modulus = w.toNat + 2 ^ bits := by
    intro hle
    obtain ⟨q, hq⟩ := h.pow_dvd
    obtain ⟨t, ht⟩ := Nat.exists_eq_add_of_le hle
    have hmod : (w.toNat + 2 ^ bits) % 2 ^ bits = t := by
      rw [ht, hq, Nat.mul_add_mod, Nat.mod_eq_of_lt (by omega)]
    rw [Nat.add_mod_right] at hmod
    omega
  rw [AbiType.spans_int]
  unfold intFitsInt
  by_cases hsign : signAt (32 - bits / 8) w = true
  · rw [hsign, if_pos rfl, leadsWith_full_iff, h.pow_eq]
    rw [signAt_iff w h.unused_lt, h.pow_eq, h.half_pow_eq] at hsign
    omega
  · rw [if_neg hsign, leadsWith_zero_iff, h.pow_eq]
    rw [signAt_iff w h.unused_lt, h.pow_eq, h.half_pow_eq] at hsign
    omega

end

/-! ## Integers against integer types -/

section
variable {t : Token} {ty : AbiType} {v : Int} {bits : Nat}

theorem checkWidth_of_isWidth (h : IsWidth bits) (fits : Nat → Bool) :
    checkWidth ty bits fits = if fits (32 - bits / 8) then .ok () else .error (.outOfRange ty.text) := by
  obtain ⟨hmod, hlow, hhigh⟩ := h
  have hunused : unusedBytes? bits = some (32 - bits / 8) := if_neg (by omega)
  rw [checkWidth, hunused]

theorem checkWidth_of_not_isWidth (h : ¬ IsWidth bits) (fits : Nat → Bool) :
    checkWidth ty bits fits = .error (.invalidType ty.text) := by
  have hunused : unusedBytes? bits = none := if_pos (by unfold IsWidth at h; omega)
  rw [checkWidth, hunused]

/-- **An integer is checked by width alone, and by the right width test.** -/
theorem exists_check_eq (ht : t.integer? = some v) (hty : ty.width? = some bits) :
    ∃ fits, t.check ty = checkWidth ty bits fits ∧ (IsWidth bits → (fits (32 - bits / 8) = true ↔ ty.Spans v)) := by
  cases t with
  | uint w =>
    cases ht
    cases ty with
    | uint n => cases hty; exact ⟨_, rfl, natFitsUint_iff⟩
    | int n => cases hty; exact ⟨_, rfl, natFitsInt_iff⟩
    | _ => cases hty
  | int w =>
    cases ht
    cases ty with
    | uint n => cases hty; exact ⟨_, rfl, intFitsUint_iff⟩
    | int n => cases hty; exact ⟨_, rfl, intFitsInt_iff⟩
    | _ => cases hty
  | _ => cases ht

theorem check_integer (ht : t.integer? = some v) (hty : ty.width? = some bits) (h : IsWidth bits) :
    (ty.Spans v → t.check ty = .ok ()) ∧ (¬ ty.Spans v → t.check ty = .error (.outOfRange ty.text)) := by
  obtain ⟨fits, hcheck, hiff⟩ := exists_check_eq ht hty
  rw [hcheck, checkWidth_of_isWidth h]
  exact ⟨fun hspans => if_pos ((hiff h).2 hspans), fun hspans => if_neg fun hfits => hspans ((hiff h).1 hfits)⟩

theorem encoding_integer (ht : t.integer? = some v) : t.encoding = (Word.ofInt v).bytes := by
  cases t with
  | uint w => cases ht; rw [Word.ofInt_toNat]; rfl
  | int w => cases ht; rw [Word.ofInt_toInt]; rfl
  | _ => cases ht

theorem check_of_encodeLiteral {bs : Bytes} (h : encodeLiteral ty t = .ok bs) : t.check ty = .ok () := by
  unfold encodeLiteral at h
  split at h
  · cases h
  · assumption

theorem encodeLiteral_integer (ht : t.integer? = some v) (hty : ty.width? = some bits) (h : t.check ty = .ok ()) :
    encodeLiteral ty t = .ok (Word.ofInt v).bytes := by
  have hplace : ty.usesOffset = ty.standsInTail := by
    cases ty with
    | uint n => rfl
    | int n => rfl
    | _ => cases hty
  rw [encodeLiteral_eq_encoding h hplace, encoding_integer ht]

/-- **Widths are ranges.**  An integer value fits an integer type exactly when the integer it stands for is in the range of the
type, whether value and type are signed or not; then its literal is the integer in two's complement, and any other is out of
range.  A width that is no multiple of 8 from 8 to 256 is no type. -/
theorem check_integer_exact (ht : t.integer? = some v) (hty : ty.width? = some bits) :
    (IsWidth bits →
      (t.check ty = .ok () ↔ ty.Spans v) ∧ (¬ ty.Spans v → t.check ty = .error (.outOfRange ty.text)) ∧
        (ty.Spans v → encodeLiteral ty t = .ok (Word.ofInt v).bytes)) ∧
    (¬ IsWidth bits → t.check ty = .error (.invalidType ty.text)) := by
  refine ⟨fun h => ?_, fun h => ?_⟩
  · obtain ⟨hin, hout⟩ := check_integer ht hty h
    refine ⟨⟨fun hok => ?_, hin⟩, hout, fun hspans => encodeLiteral_integer ht hty (hin hspans)⟩
    by_contra hspans
    rw [hout hspans] at hok
    cases hok
  · obtain ⟨fits, hcheck, -⟩ := exists_check_eq ht hty
    rw [hcheck, checkWidth_of_not_isWidth h]

theorem check_integer_exact_edges :
    ((Token.int (Word.ofInt (-128))).check (.int 8) = .ok () ∧
      encodeLiteral (.int 8) (.int (Word.ofInt (-128))) = .ok (Word.ofInt (-128)).bytes) ∧
    (Token.uint (Word.ofNat 128)).check (.int 8) = .error (.outOfRange "int8") ∧
    (Token.int (Word.ofInt (-1))).check (.uint 256) = .error (.outOfRange "uint256") ∧
    (Token.uint (Word.ofNat 0)).check (.uint 12) = .error (.invalidType "uint12") := by
  have hleast : (Token.int (Word.ofInt (-128))).integer? = some (-128) := by decide +kernel
  have hover : (Token.uint (Word.ofNat 128)).integer? = some 128 := by decide +kernel
  have hnegative : (Token.int (Word.ofInt (-1))).integer? = some (-1) := by decide +kernel
  have hzero : (Token.uint (Word.ofNat 0)).integer? = some 0 := by decide +kernel
  obtain ⟨hfits, -, hliteral⟩ := (check_integer_exact hleast (show (AbiType.int 8).width? = some 8 from rfl)).1 (by decide)
  obtain ⟨-, hout, -⟩ := (check_integer_exact hover (show (AbiType.int 8).width? = some 8 from rfl)).1 (by decide)
  obtain ⟨-, hout', -⟩ := (check_integer_exact hnegative (show (AbiType.uint 256).width? = some 256 from rfl)).1 (by decide)
  exact ⟨⟨hfits.2 (by decide), hliteral (by decide)⟩, hout (by decide), hout' (by decide),
    (check_integer_exact hzero (show (AbiType.uint 12).width? = some 12 from rfl)).2 (by decide)⟩

end

end Token
end CallPlan
