import CallPlan.Bytes.Word
import Mathlib.Algebra.Order.Ring.Nat
import Mathlib.Data.List.Induction
import Mathlib.Tactic.Ring
/-!
# What words stand for

Bytes are digits of base 256, so bytes in front are a quotient and bytes behind a remainder (`ofBigEndian_take`,
`ofBigEndian_drop`).  A step with a carry keeps the number that the bytes and the carry write together
(`timesTenPlus_value`, `plusOne_value`); what the steps make of a word follows (`Word.pushDigit?_eq`, `Word.negate_eq`).  The
two readings of a word, as a number and in two's complement, are both undone by `Word.ofInt` (`Word.ofInt_toNat`,
`Word.ofInt_toInt`).
-/
namespace CallPlan

/-! ## Bytes as digits -/

theorem ofBigEndian_append (as : Bytes) : ∀ bs : Bytes,
    ofBigEndian (as ++ bs) = ofBigEndian as * 256 ^ bs.length + ofBigEndian bs := by
  intro bs
  induction bs using List.reverseRecOn with
  | nil => simp [ofBigEndian]
  | append_singleton bs b ih =>
    rw [← List.append_assoc, ofBigEndian_concat, ofBigEndian_concat, ih, List.length_append, List.length_singleton, pow_succ]
    ring

theorem ofBigEndian_cons (b : UInt8) (bs : Bytes) : ofBigEndian (b :: bs) = b.toNat * 256 ^ bs.length + ofBigEndian bs := by
  have h := ofBigEndian_append [b] bs
  rwa [List.singleton_append, show ofBigEndian [b] = b.toNat by simp [ofBigEndian]] at h

theorem ofBigEndian_lt : ∀ bs : Bytes, ofBigEndian bs < 256 ^ bs.length
  | [] => by simp [ofBigEndian]
  | b :: bs => by
    have hb : b.toNat + 1 ≤ 256 := b.toNat_lt
    have hbs := ofBigEndian_lt bs
    have hmul := Nat.mul_le_mul_right (256 ^ bs.length) hb
    rw [ofBigEndian_cons, List.length_cons, pow_succ, Nat.mul_comm _ 256]
    rw [Nat.add_mul, Nat.one_mul] at hmul
    omega

theorem bigEndian_ofBigEndian (bs : Bytes) : bigEndian bs.length (ofBigEndian bs) = bs := by
  induction bs using List.reverseRecOn with
  | nil => rfl
  | append_singleton bs b ih =>
    have hb : b.toNat < 256 := b.toNat_lt
    have hdiv : (256 * ofBigEndian bs + b.toNat) / 256 = ofBigEndian bs := by omega
    have hmod : (256 * ofBigEndian bs + b.toNat) % 256 = b.toNat := by omega
    rw [ofBigEndian_concat, List.length_append, List.length_singleton, bigEndian, hdiv, hmod, ih, UInt8.ofNat_toNat]

theorem ofBigEndian_take_drop (bs : Bytes) (n : Nat) :
    ofBigEndian bs = ofBigEndian (bs.take n) * 256 ^ (bs.length - n) + ofBigEndian (bs.drop n) ∧
      ofBigEndian (bs.drop n) < 256 ^ (bs.length - n) := by
  have hsplit := ofBigEndian_append (bs.take n) (bs.drop n)
  have hlt := ofBigEndian_lt (bs.drop n)
  rw [List.take_append_drop] at hsplit
  rw [List.length_drop] at hsplit hlt
  exact ⟨hsplit, hlt⟩

theorem ofBigEndian_take (bs : Bytes) (n : Nat) :
    ofBigEndian (bs.take n) = ofBigEndian bs / 256 ^ (bs.length - n) := by
  obtain ⟨hsplit, hlt⟩ := ofBigEndian_take_drop bs n
  rw [hsplit, Nat.mul_comm, Nat.mul_add_div (pow_pos (by decide) _), Nat.div_eq_of_lt hlt, Nat.add_zero]

theorem ofBigEndian_drop (bs : Bytes) (n : Nat) :
    ofBigEndian (bs.drop n) = ofBigEndian bs % 256 ^ (bs.length - n) := by
  obtain ⟨hsplit, hlt⟩ := ofBigEndian_take_drop bs n
  rw [hsplit, Nat.mul_comm, Nat.mul_add_mod, Nat.mod_eq_of_lt hlt]

theorem all_zero_iff : ∀ bs : Bytes, bs.all (· == 0) = true ↔ ofBigEndian bs = 0
  | [] => by simp [ofBigEndian]
  | b :: bs => by
    have hpos : 0 < 256 ^ bs.length := pow_pos (by decide) _
    have hb : b = 0 ↔ b.toNat = 0 := UInt8.toNat_inj.symm
    rw [List.all_cons, Bool.and_eq_true, beq_iff_eq, all_zero_iff bs, ofBigEndian_cons, Nat.add_eq_zero_iff, Nat.mul_eq_zero, hb]
    exact ⟨fun h => ⟨.inl h.1, h.2⟩, fun h => ⟨h.1.resolve_right hpos.ne', h.2⟩⟩

/-- **Turning all bits over subtracts from the greatest number of that many bytes.** -/
theorem ofBigEndian_map_not : ∀ bs : Bytes, ofBigEndian (bs.map (~~~ ·)) + ofBigEndian bs + 1 = 256 ^ bs.length
  | [] => by simp [ofBigEndian]
  | b :: bs => by
    have ih := ofBigEndian_map_not bs
    have hb : (~~~ b).toNat + b.toNat = 255 := by
      rw [UInt8.toNat_not, show UInt8.size = 256 from rfl]
      have := b.toNat_lt
      omega
    have hmul : (~~~ b).toNat * 256 ^ bs.length + b.toNat * 256 ^ bs.length = 255 * 256 ^ bs.length := by
      rw [← Nat.add_mul, hb]
    rw [List.map_cons, ofBigEndian_cons, ofBigEndian_cons, List.length_map, List.length_cons, pow_succ]
    omega

theorem all_full_eq (bs : Bytes) : bs.all (· == 0xFF) = (bs.map (~~~ ·)).all (· == 0) := by
  have hbyte : ∀ b : UInt8, (b == 0xFF) = (~~~ b == 0) := fun b => by
    rw [Bool.eq_iff_iff, beq_iff_eq, beq_iff_eq, ← UInt8.toNat_inj, ← UInt8.toNat_inj, UInt8.toNat_not,
      show UInt8.size = 256 from rfl, show (0xFF : UInt8).toNat = 255 from rfl, show (0 : UInt8).toNat = 0 from rfl]
    have := b.toNat_lt
    omega
  rw [List.all_map]
  exact congrArg bs.all (funext hbyte)

/-! ## Carries -/

/-- **The carry and the bytes together write ten times the number and the digit**, and the carry is again a digit, so that no
step of 16 bits overflows. -/
theorem timesTenPlus_value {d : UInt16} (hd : d.toNat < 10) : ∀ bs : Bytes,
    (timesTenPlus d bs).2.toNat < 10 ∧
      (timesTenPlus d bs).2.toNat * 256 ^ bs.length + ofBigEndian (timesTenPlus d bs).1 = 10 * ofBigEndian bs + d.toNat
  | [] => by simp [timesTenPlus, ofBigEndian, hd]
  | b :: bs => by
    obtain ⟨hcarry, hvalue⟩ := timesTenPlus_value hd bs
    have hb : b.toNat < 256 := b.toNat_lt
    have hsum : (b.toUInt16 * 10 + (timesTenPlus d bs).2).toNat = b.toNat * 10 + (timesTenPlus d bs).2.toNat := by
      rw [UInt16.toNat_add, UInt16.toNat_mul, UInt8.toNat_toUInt16, show (10 : UInt16).toNat = 10 from rfl]
      omega
    have hlow : (b.toUInt16 * 10 + (timesTenPlus d bs).2).toUInt8.toNat =
        (b.toNat * 10 + (timesTenPlus d bs).2.toNat) % 256 := by
      rw [UInt16.toNat_toUInt8, hsum]
    have hhigh : ((b.toUInt16 * 10 + (timesTenPlus d bs).2) >>> 8).toNat =
        (b.toNat * 10 + (timesTenPlus d bs).2.toNat) / 256 := by
      rw [UInt16.toNat_shiftRight, hsum]
      exact Nat.shiftRight_eq_div_pow _ 8
    have hsplit := Nat.div_add_mod (b.toNat * 10 + (timesTenPlus d bs).2.toNat) 256
    rw [timesTenPlus]
    simp only
    rw [hhigh, ofBigEndian_cons, hlow, length_timesTenPlus, ofBigEndian_cons, List.length_cons, pow_succ]
    refine ⟨by omega, ?_⟩
    generalize (b.toNat * 10 + (timesTenPlus d bs).2.toNat) / 256 = high at hsplit ⊢
    generalize (b.toNat * 10 + (timesTenPlus d bs).2.toNat) % 256 = low at hsplit ⊢
    calc high * (256 ^ bs.length * 256) + (low * 256 ^ bs.length + ofBigEndian (timesTenPlus d bs).1)
        = (256 * high + low) * 256 ^ bs.length + ofBigEndian (timesTenPlus d bs).1 := by ring
      _ = b.toNat * 10 * 256 ^ bs.length +
          ((timesTenPlus d bs).2.toNat * 256 ^ bs.length + ofBigEndian (timesTenPlus d bs).1) := by rw [hsplit]; ring
      _ = 10 * (b.toNat * 256 ^ bs.length + ofBigEndian bs) + d.toNat := by rw [hvalue]; ring

theorem plusOne_value : ∀ bs : Bytes,
    (if (plusOne bs).2 then 256 ^ bs.length else 0) + ofBigEndian (plusOne bs).1 = ofBigEndian bs + 1
  | [] => by simp [plusOne, ofBigEndian]
  | b :: bs => by
    have ih := plusOne_value bs
    rw [plusOne]
    cases hlow : (plusOne bs).2 with
    | false =>
      rw [hlow] at ih
      simp only [Bool.false_eq_true, ↓reduceIte] at ih ⊢
      rw [ofBigEndian_cons, ofBigEndian_cons, length_plusOne]
      omega
    | true =>
      rw [hlow] at ih
      simp only [↓reduceIte] at ih ⊢
      rw [ofBigEndian_cons, ofBigEndian_cons, length_plusOne, List.length_cons, pow_succ]
      by_cases hb : b = 0xFF
      · subst hb
        simp only [beq_self_eq_true, ↓reduceIte, show ((0xFF : UInt8) + 1).toNat = 0 from rfl,
          show (0xFF : UInt8).toNat = 255 from rfl]
        omega
      · have hlt : b.toNat < 255 := by
          have := b.toNat_lt
          have : b.toNat ≠ 255 := fun h => hb (UInt8.toNat_inj.1 h)
          omega
        have hnext : (b + 1).toNat = b.toNat + 1 := by
          rw [UInt8.toNat_add, show (1 : UInt8).toNat = 1 from rfl]
          omega
        rw [beq_false_of_ne hb, hnext, Nat.add_mul]
        simp only [Bool.false_eq_true, ↓reduceIte]
        omega

/-! ## Words -/

namespace Word

theorem modulus_eq : modulus = 2 ^ 256 := rfl

theorem half_eq : half = 2 ^ 255 := rfl

theorem toNat_lt (w : Word) : w.toNat < modulus := by
  have h := ofBigEndian_lt w.bytes
  rw [w.length_bytes] at h
  exact h

theorem ofNat_toNat (w : Word) : ofNat w.toNat = w := by
  have h := bigEndian_ofBigEndian w.bytes
  rw [w.length_bytes] at h
  exact Block.ext h

theorem eq_of_toNat {v w : Word} (h : v.toNat = w.toNat) : v = w := by
  rw [← ofNat_toNat v, h, ofNat_toNat]

theorem eq_ofNat {w : Word} {n : Nat} (h : w.toNat = n) : w = ofNat n := by
  rw [← h, ofNat_toNat]

theorem topBit_iff (w : Word) : w.topBit = true ↔ half ≤ w.toNat := by
  obtain ⟨bs, hlen⟩ := w
  cases bs with
  | nil => cases hlen
  | cons b bs =>
    have hlen' : bs.length = 31 := Nat.succ.inj hlen
    have hrest := ofBigEndian_lt bs
    unfold topBit toNat
    rw [ofBigEndian_cons, half_eq, List.headD_cons, decide_eq_true_eq]
    rw [hlen'] at hrest ⊢
    omega

theorem toInt_cases (w : Word) :
    (w.toNat < half ∧ w.toInt = w.toNat) ∨ (half ≤ w.toNat ∧ w.toInt = w.toNat - (modulus : Int)) := by
  by_cases htop : w.topBit = true
  · refine .inr ⟨(topBit_iff w).1 htop, ?_⟩
    rw [toInt, if_pos htop]
    rfl
  · refine .inl ⟨Nat.lt_of_not_le fun h => htop ((topBit_iff w).2 h), ?_⟩
    rw [toInt, if_neg htop]
    rfl

/-! ## Integers as words -/

theorem ofInt_natCast {n : Nat} (h : n < modulus) : ofInt n = ofNat n := by
  rw [ofInt, show Int.ofNat modulus = (modulus : Int) from rfl, Int.emod_eq_of_lt (Int.natCast_nonneg n) (Int.ofNat_lt.2 h),
    Int.toNat_natCast]

theorem ofInt_sub_modulus (i : Int) : ofInt (i - modulus) = ofInt i := by
  unfold ofInt
  rw [show Int.ofNat modulus = (modulus : Int) from rfl, Int.sub_emod_right]

theorem ofInt_toNat (w : Word) : ofInt w.toNat = w := by
  rw [ofInt_natCast w.toNat_lt, ofNat_toNat]

theorem ofInt_toInt (w : Word) : ofInt w.toInt = w := by
  rcases w.toInt_cases with ⟨-, h⟩ | ⟨-, h⟩
  · rw [h, ofInt_toNat]
  · rw [h, ofInt_sub_modulus, ofInt_toNat]

theorem ofInt_neg {n : Nat} (h : n ≠ 0) (hn : n ≤ modulus) : ofInt (-(n : Int)) = ofNat (modulus - n) := by
  have hcast : (-(n : Int)) = (modulus - n : Nat) - (modulus : Int) := by omega
  rw [hcast, ofInt_sub_modulus, ofInt_natCast (by omega)]

theorem toNat_ofInt {v : Int} (hlow : 0 ≤ v) (hhigh : v < modulus) : ((ofInt v).toNat : Int) = v := by
  obtain ⟨n, rfl⟩ := Int.eq_ofNat_of_zero_le hlow
  have hn : n < modulus := by omega
  rw [ofInt_natCast hn, toNat_ofNat hn]

theorem toInt_ofInt {v : Int} (hlow : -(half : Int) ≤ v) (hhigh : v < half) : (ofInt v).toInt = v := by
  have hmodulus : modulus = 2 * half := rfl
  have hcases := (ofInt v).toInt_cases
  by_cases hneg : v < 0
  · obtain ⟨n, hn⟩ := Int.eq_ofNat_of_zero_le (show 0 ≤ -v by omega)
    obtain rfl : v = -(n : Int) := by omega
    have hword : (ofInt (-(n : Int))).toNat = modulus - n := by
      rw [ofInt_neg (by omega) (by omega), toNat_ofNat (by omega)]
    omega
  · have hword := toNat_ofInt (show 0 ≤ v by omega) (by omega)
    omega

/-! ## What the steps make of a word -/

/-- **Behind the digits of a number stands one more, unless the number leaves the words.** -/
theorem pushDigit?_eq (w : Word) {d : Nat} (hd : d < 10) :
    w.pushDigit? d = if 10 * w.toNat + d < modulus then some (ofNat (10 * w.toNat + d)) else none := by
  have hdigit : (UInt16.ofNat d).toNat = d := by
    rw [UInt16.toNat_ofNat']
    omega
  obtain ⟨-, hvalue⟩ := timesTenPlus_value (by rwa [hdigit]) w.bytes
  have hlt := ofBigEndian_lt (timesTenPlus (.ofNat d) w.bytes).1
  rw [length_timesTenPlus, w.length_bytes] at hlt
  rw [w.length_bytes, hdigit] at hvalue
  unfold pushDigit?
  by_cases hcarry : (timesTenPlus (.ofNat d) w.bytes).2 = 0
  · rw [hcarry, show (0 : UInt16).toNat = 0 from rfl, Nat.zero_mul, Nat.zero_add] at hvalue
    rw [if_pos hcarry, if_pos (by rw [toNat, ← hvalue]; exact hlt)]
    exact congrArg some (eq_ofNat hvalue)
  · have hpos : 1 ≤ (timesTenPlus (.ofNat d) w.bytes).2.toNat :=
      Nat.pos_of_ne_zero fun h => hcarry (UInt16.toNat_inj.1 h)
    have hmul := Nat.mul_le_mul_right (256 ^ 32) hpos
    rw [if_neg hcarry, if_neg (by rw [toNat, ← hvalue, modulus_eq]; omega)]

/-- **The two's complement of a word is that of the negative number.** -/
theorem negate_eq (w : Word) : w.negate = ofInt (-(w.toNat : Int)) := by
  have hnot := ofBigEndian_map_not w.bytes
  have hplus := plusOne_value (w.bytes.map (~~~ ·))
  have hlt := w.negate.toNat_lt
  rw [List.length_map, w.length_bytes] at hplus
  rw [w.length_bytes, show ofBigEndian w.bytes = w.toNat from rfl] at hnot
  rw [show ofBigEndian (plusOne (w.bytes.map (~~~ ·))).1 = w.negate.toNat from rfl] at hplus
  rw [modulus_eq] at hlt
  by_cases hzero : w.toNat = 0
  · rw [hzero]
    refine eq_of_toNat ?_
    have : (ofInt (-((0 : Nat) : Int))).toNat = 0 := by decide +kernel
    rw [this]
    split at hplus <;> omega
  · rw [ofInt_neg hzero w.toNat_lt.le]
    refine eq_ofNat ?_
    rw [modulus_eq]
    split at hplus <;> omega

theorem toNat_extend {fill : UInt8} {n : Nat} (h : n < 2 ^ 128) :
    (extend fill n).toNat = ofBigEndian (List.replicate 16 fill) * 2 ^ 128 + n := by
  unfold extend toNat
  rw [ofBigEndian_append, length_bigEndian, ofBigEndian_bigEndian 16 n h]
  rfl

theorem extend_zero {n : Nat} (h : n < 2 ^ 128) : extend 0x00 n = ofInt n := by
  rw [ofInt_natCast (by rw [modulus_eq]; omega)]
  refine eq_ofNat ?_
  rw [toNat_extend h, show ofBigEndian (List.replicate 16 0x00) = 0 by decide +kernel, Nat.zero_mul, Nat.zero_add]

theorem extend_full {n : Nat} (h : n < 2 ^ 128) : extend 0xFF n = ofInt (n - 2 ^ 128) := by
  have hcast : ((n : Int) - 2 ^ 128) = -((2 ^ 128 - n : Nat) : Int) := by omega
  rw [hcast, ofInt_neg (by omega) (by rw [modulus_eq]; omega)]
  refine eq_ofNat ?_
  rw [toNat_extend h, show ofBigEndian (List.replicate 16 0xFF) = 2 ^ 128 - 1 by decide +kernel, modulus_eq]
  omega

end Word
end CallPlan
