import CallPlan.Proofs.HexDigits
import CallPlan.Proofs.Nesting
import CallPlan.Proofs.Numerals
import CallPlan.Proofs.Widths
import CallPlan.Script.Argument
/-!
# Integers in text

A numeral is a row of decimal digits, or of hexadecimal digits behind a marker; a negative integer has a minus sign in front.
The readers of words take in a numeral digit by digit and end with the word of its number, if there is one
(`Word.readUint?_of_writesNumber`, `Word.readInt?_of_writesInteger`).  The reader of numbers takes no other text but one: the
digits behind a marker are read as any hexadecimal text, which may have a marker of its own (`Word.readUint?_eq_some_iff`).
-/
namespace CallPlan

/-! ## Numerals -/

namespace Text

open Hex (IsMarker)

/-- **A numeral that writes a number**: decimal digits, leading zeros allowed, or 1 to 64 hexadecimal digits behind `0x` or
`0X`. -/
inductive WritesNumber : List Char → Nat → Prop where
  | decimal {ds : List Char} {n : Nat} (digits : WritesNat ds n) : WritesNumber ds n
  | hex {x : Char} {ds : List Char} {n : Nat} (marker : IsMarker x) (digits : Hex.WritesNat ds n) (short : ds.length ≤ 64) :
      WritesNumber ('0' :: x :: ds) n

/-- **A numeral that writes an integer**: that of its magnitude, behind a minus sign if it is negative. -/
inductive WritesInteger : List Char → Int → Prop where
  | plain {s : List Char} {n : Nat} (number : WritesNumber s n) : WritesInteger s n
  | minus {s : List Char} {n : Nat} (number : WritesNumber s n) (pos : 0 < n) : WritesInteger ('-' :: s) (-n)

/-- **A hexadecimal numeral with a second marker**, whole or without its zero, in front of an even number of digits. -/
inductive MarkedTwice : List Char → Nat → Prop where
  | whole {x y : Char} {ds : List Char} {n : Nat} (first : IsMarker x) (second : IsMarker y) (digits : Hex.WritesNat ds n)
      (even : ds.length % 2 = 0) (short : ds.length ≤ 64) : MarkedTwice ('0' :: x :: '0' :: y :: ds) n
  | bare {x y : Char} {ds : List Char} {n : Nat} (first : IsMarker x) (second : IsMarker y) (digits : Hex.WritesNat ds n)
      (even : ds.length % 2 = 0) (short : ds.length ≤ 64) : MarkedTwice ('0' :: x :: y :: ds) n

section
variable {s : List Char} {m n : Nat}

theorem not_writesNat_marked {x : Char} (h : IsMarker x) {ds : List Char} : ¬ WritesNat ('0' :: x :: ds) n := by
  rintro ⟨-, hdigits, -⟩
  have hx := hdigits x (List.mem_cons_of_mem _ List.mem_cons_self)
  rw [h.not_digit.1] at hx
  cases hx

theorem hex_not_writesNat_of_mem {x : Char} (h : IsMarker x) (hmem : x ∈ s) : ¬ Hex.WritesNat s n := by
  rintro ⟨-, hdigits, -⟩
  have hx := hdigits x hmem
  rw [h.not_digit.2.1] at hx
  cases hx

theorem WritesNumber.unique (hm : WritesNumber s m) (hn : WritesNumber s n) : m = n := by
  cases hm with
  | decimal hm =>
    cases hn with
    | decimal hn => exact hm.2.2.symm.trans hn.2.2
    | hex hx hn hshort => exact absurd hm (not_writesNat_marked hx)
  | hex hx hm hshort =>
    cases hn with
    | decimal hn => exact absurd hn (not_writesNat_marked hx)
    | hex hx hn hshort => exact hm.2.2.symm.trans hn.2.2

/-- **A text marked twice is no numeral.** -/
theorem MarkedTwice.not_writesNumber (hm : MarkedTwice s m) : ¬ WritesNumber s n := by
  intro hn
  cases hm with
  | whole hx hy _ _ _ =>
    cases hn with
    | decimal hn => exact not_writesNat_marked hx hn
    | hex _ hn _ => exact hex_not_writesNat_of_mem hy (by simp) hn
  | bare hx hy _ _ _ =>
    cases hn with
    | decimal hn => exact not_writesNat_marked hx hn
    | hex _ hn _ => exact hex_not_writesNat_of_mem hy (by simp) hn

/-! ## Trimming -/

theorem isHexDigit_of_isDigit {c : Char} (h : c.isDigit = true) : c.isHexDigit = true := by
  unfold Char.isHexDigit
  rw [h]
  rfl

theorem WritesNumber.not_blank (h : WritesNumber s n) : s ≠ [] ∧ ∀ c ∈ s, isBlank c = false := by
  cases h with
  | decimal digits => exact ⟨digits.1, fun c hc => Hex.isBlank_of_isHexDigit (isHexDigit_of_isDigit (digits.2.1 c hc))⟩
  | @hex x ds n marker digits short =>
    refine ⟨List.cons_ne_nil _ _, fun c hc => ?_⟩
    rcases List.mem_cons.1 hc with rfl | hc
    · decide
    · rcases List.mem_cons.1 hc with rfl | hc
      · rcases marker with rfl | rfl <;> decide
      · exact Hex.isBlank_of_isHexDigit (digits.2.1 c hc)

theorem WritesNumber.trim_eq (h : WritesNumber s n) : trim s = s := (solid_of_forall h.not_blank.1 h.not_blank.2).trim_self

theorem WritesNumber.trim_minus (h : WritesNumber s n) : trim ('-' :: s) = '-' :: s := by
  refine (solid_of_forall (List.cons_ne_nil _ _) fun c hc => ?_).trim_self
  rcases List.mem_cons.1 hc with rfl | hc
  · decide
  · exact h.not_blank.2 c hc

theorem WritesNumber.ne_minus (h : WritesNumber s n) (t : List Char) : s ≠ '-' :: t := by
  rintro rfl
  cases h with
  | decimal digits => exact absurd (digits.2.1 '-' List.mem_cons_self) (by decide)

end

end Text

namespace Word

open Hex (IsMarker)
open Text (trim WritesNat WritesNumber WritesInteger MarkedTwice)

/-! ## Decimal digits -/

theorem le_ofDigitChars (ds : List Char) : ∀ n, n ≤ Nat.ofDigitChars 10 ds n := by
  induction ds with
  | nil => exact fun n => Nat.le_refl n
  | cons c ds ih =>
    intro n
    rw [Nat.ofDigitChars_cons]
    exact Nat.le_trans (by omega) (ih _)

/-- **The digits taken in one by one end with the word of their number, or leave the words on the way.** -/
theorem foldlM_pushDigit? : ∀ (ds : List Char) (w : Word), (∀ c ∈ ds, c.isDigit = true) →
    ds.foldlM (fun w c => w.pushDigit? (c.toNat - 48)) w =
      if Nat.ofDigitChars 10 ds w.toNat < modulus then some (ofNat (Nat.ofDigitChars 10 ds w.toNat)) else none
  | [], w, _ => by
    rw [List.foldlM_nil, Nat.ofDigitChars_nil, if_pos w.toNat_lt, ofNat_toNat]
    rfl
  | c :: ds, w, h => by
    have hc : c.toNat - 48 < 10 := by
      have := h c List.mem_cons_self
      unfold Char.isDigit at this
      simp only [ge_iff_le, UInt32.le_iff_toNat_le, Bool.and_eq_true, decide_eq_true_eq] at this
      have : c.toNat ≤ 57 := this.2
      omega
    have ih := fun v => foldlM_pushDigit? ds v fun x hx => h x (List.mem_cons_of_mem c hx)
    rw [List.foldlM_cons, pushDigit?_eq w hc, Nat.ofDigitChars_cons]
    by_cases hlt : 10 * w.toNat + (c.toNat - 48) < modulus
    · rw [if_pos hlt]
      have hstep := ih (ofNat (10 * w.toNat + (c.toNat - 48)))
      rw [toNat_ofNat hlt] at hstep
      exact hstep
    · have hover : ¬ Nat.ofDigitChars 10 ds (10 * w.toNat + (c.toNat - 48)) < modulus :=
        fun h => hlt (Nat.lt_of_le_of_lt (le_ofDigitChars ds _) h)
      rw [if_neg hlt]
      exact (if_neg hover).symm

theorem readDecimal?_eq_some_iff {ds : List Char} {w : Word} :
    readDecimal? ds = some w ↔ ∃ n, WritesNat ds n ∧ n < modulus ∧ w = ofNat n := by
  unfold readDecimal?
  by_cases hds : ds = []
  · subst hds
    simp [WritesNat]
  · by_cases hall : ds.all Char.isDigit = true
    · have hempty : ds.isEmpty = false := by simpa using hds
      have hdigits := List.all_eq_true.1 hall
      rw [hempty, hall, foldlM_pushDigit? ds zero hdigits, show zero.toNat = 0 by decide +kernel]
      simp only [Bool.not_true, Bool.or_self, Bool.false_eq_true, ↓reduceIte]
      constructor
      · intro h
        split at h
        · rename_i hlt
          exact ⟨_, ⟨hds, hdigits, rfl⟩, hlt, (Option.some.inj h).symm⟩
        · cases h
      · rintro ⟨n, ⟨-, -, rfl⟩, hlt, rfl⟩
        rw [if_pos hlt]
    · rw [if_pos (by simp [hall])]
      constructor
      · intro h
        cases h
      · rintro ⟨n, hn, -⟩
        exact absurd (List.all_eq_true.2 hn.2.1) hall

/-! ## Hexadecimal digits -/

theorem ofShort?_eq (bs : Bytes) : ofShort? bs = if bs.length ≤ 32 then some (ofNat (ofBigEndian bs)) else none := by
  unfold ofShort?
  by_cases hlen : bs.length ≤ 32
  · rw [dif_pos hlen, if_pos hlen]
    refine congrArg some (eq_ofNat ?_)
    rw [toNat, ofBigEndian_append, show ofBigEndian (List.replicate (32 - bs.length) 0) = 0 from
      (all_zero_iff _).1 (by simp), Nat.zero_mul, Nat.zero_add]
  · rw [dif_neg hlen, if_neg hlen]

/-- What is decoded of the digits behind a marker: an odd number of them gets a zero in front, and a marker is dropped again. -/
def decodedPart (ds : List Char) : List Char := Hex.dropMarker (if Hex.width ds % 2 = 1 then '0' :: ds else ds)

section
variable {ds es : List Char} {n : Nat} {w : Word}

theorem readHexDigits?_of_decodedPart (hes : decodedPart ds = es) (h : Hex.WritesNat es n) (heven : es.length % 2 = 0)
    (hshort : es.length ≤ 64) : readHexDigits? ds = some (ofNat n) := by
  have hlt : n < Nat.pow 256 (es.length / 2) := by
    calc n < 16 ^ es.length := h.lt
      _ = 16 ^ (2 * (es.length / 2)) := by congr 1; omega
      _ = 256 ^ (es.length / 2) := by rw [pow_mul, show 16 ^ 2 = 256 from rfl]
  obtain ⟨hne, hdigits, hvalue⟩ := h
  have hdecode : Hex.decode es = .ok (bigEndian (es.length / 2) n) := by
    refine Hex.decode_eq_ok_iff.2 ⟨hdigits, ?_, ?_⟩
    · rw [length_bigEndian]
      omega
    · rw [ofBigEndian_bigEndian _ _ hlt, hvalue]
  have hpos := List.length_pos_iff.2 hne
  have hempty : (bigEndian (es.length / 2) n).isEmpty = false := by
    rw [List.isEmpty_eq_false_iff, ← List.length_pos_iff, length_bigEndian]
    omega
  unfold decodedPart at hes
  unfold readHexDigits?
  rw [Hex.read, hes, hdecode]
  simp only [hempty, Bool.false_eq_true, ↓reduceIte]
  rw [ofShort?_eq, if_pos (by rw [length_bigEndian]; omega), ofBigEndian_bigEndian _ _ hlt]

theorem decodedPart_of_readHexDigits? (h : readHexDigits? ds = some w) :
    ∃ n, Hex.WritesNat (decodedPart ds) n ∧ (decodedPart ds).length % 2 = 0 ∧ (decodedPart ds).length ≤ 64 ∧ w = ofNat n := by
  unfold readHexDigits? Hex.read at h
  rw [← decodedPart] at h
  split at h
  · cases h
  · rename_i bs hdecode
    obtain ⟨hdigits, hlen, hvalue⟩ := Hex.decode_eq_ok_iff.1 hdecode
    split at h
    · cases h
    · rename_i hempty
      have hpos : 0 < bs.length := List.length_pos_iff.2 (by simpa using hempty)
      rw [ofShort?_eq] at h
      split at h
      · have hne : decodedPart ds ≠ [] := List.length_pos_iff.1 (by omega)
        refine ⟨_, ⟨hne, hdigits, rfl⟩, by omega, by omega, ?_⟩
        rw [← hvalue]
        exact (Option.some.inj h).symm
      · cases h

theorem readHexDigits?_of_writesNat (h : Hex.WritesNat ds n) (hshort : ds.length ≤ 64) :
    readHexDigits? ds = some (ofNat n) := by
  have hunmarked : ∀ {es : List Char}, (∀ c ∈ es, c.isHexDigit = true) → Hex.dropMarker es = es := by
    intro es hes
    refine Hex.dropMarker_of_ne fun x r hx heq => ?_
    have := hes x (by simp [heq])
    rw [hx.not_digit.2.1] at this
    cases this
  have hdigits := h.2.1
  by_cases hodd : ds.length % 2 = 1
  · have hdigits' : ∀ c ∈ '0' :: ds, c.isHexDigit = true := List.forall_mem_cons.2 ⟨by decide, hdigits⟩
    have hpadded : Hex.WritesNat ('0' :: ds) n := ⟨List.cons_ne_nil _ _, hdigits', h.2.2⟩
    refine readHexDigits?_of_decodedPart ?_ hpadded ?_ ?_
    · rw [decodedPart, Hex.width_eq_length hdigits, if_pos hodd, hunmarked hdigits']
    · rw [List.length_cons]
      omega
    · rw [List.length_cons]
      omega
  · refine readHexDigits?_of_decodedPart ?_ h (by omega) hshort
    rw [decodedPart, Hex.width_eq_length hdigits, if_neg hodd, hunmarked hdigits]

/-- **The digits are read behind a second marker, too.** -/
theorem readHexDigits?_of_markedTwice {x : Char} (h : MarkedTwice ('0' :: x :: ds) n) : readHexDigits? ds = some (ofNat n) := by
  cases h with
  | @whole _ y es _ _ hy digits heven hshort =>
    have hwidth : Hex.width ('0' :: y :: es) = es.length + 2 := by
      rw [Hex.width, Hex.width, hy.not_digit.2.2, Hex.width_eq_length digits.2.1, show '0'.utf8Size = 1 from rfl]
      omega
    refine readHexDigits?_of_decodedPart ?_ digits heven hshort
    rw [decodedPart, hwidth, if_neg (by omega), Hex.dropMarker_marked hy]
  | @bare _ y es _ _ hy digits heven hshort =>
    have hwidth : Hex.width (y :: es) = es.length + 1 := by
      rw [Hex.width, hy.not_digit.2.2, Hex.width_eq_length digits.2.1]
      omega
    refine readHexDigits?_of_decodedPart ?_ digits heven hshort
    rw [decodedPart, hwidth, if_pos (by omega), Hex.dropMarker_marked hy]

/-- **Nothing else is read as digits behind a marker.** -/
theorem cases_of_readHexDigits? {x : Char} (hx : IsMarker x) (h : readHexDigits? ds = some w) :
    ∃ n, ((Hex.WritesNat ds n ∧ ds.length ≤ 64) ∨ MarkedTwice ('0' :: x :: ds) n) ∧ w = ofNat n := by
  obtain ⟨n, hwrites, heven, hshort, rfl⟩ := decodedPart_of_readHexDigits? h
  refine ⟨n, ?_, rfl⟩
  unfold decodedPart at hwrites heven hshort
  by_cases hodd : Hex.width ds % 2 = 1
  · rw [if_pos hodd] at hwrites heven hshort
    by_cases hmark : ∃ y r, IsMarker y ∧ ds = y :: r
    · obtain ⟨y, r, hy, rfl⟩ := hmark
      rw [Hex.dropMarker_marked hy] at hwrites heven hshort
      exact .inr (.bare hx hy hwrites heven hshort)
    · rw [Hex.dropMarker_of_ne fun y r hy heq => hmark ⟨y, r, hy, (List.cons.inj heq).2⟩] at hwrites hshort
      have hne : ds ≠ [] := by
        rintro rfl
        cases hodd
      rw [List.length_cons] at hshort
      exact .inl ⟨⟨hne, fun c hc => hwrites.2.1 c (List.mem_cons_of_mem _ hc), hwrites.2.2⟩, by omega⟩
  · rw [if_neg hodd] at hwrites heven hshort
    by_cases hmark : ∃ y r, IsMarker y ∧ ds = '0' :: y :: r
    · obtain ⟨y, r, hy, rfl⟩ := hmark
      rw [Hex.dropMarker_marked hy] at hwrites heven hshort
      exact .inr (.whole hx hy hwrites heven hshort)
    · rw [Hex.dropMarker_of_ne fun y r hy heq => hmark ⟨y, r, hy, heq⟩] at hwrites hshort
      exact .inl ⟨hwrites, hshort⟩

end

/-! ## Numbers -/

section
variable {s ds : List Char} {n : Nat} {w : Word}

theorem readUint?_marked {x : Char} (hx : IsMarker x) (h : trim s = '0' :: x :: ds) : readUint? s = readHexDigits? ds := by
  unfold readUint?
  rw [h]
  rcases hx with rfl | rfl
  · rfl
  · rfl

theorem readUint?_unmarked (h : ∀ x r, IsMarker x → trim s ≠ '0' :: x :: r) : readUint? s = readDecimal? (trim s) := by
  unfold readUint?
  split
  · rename_i heq
    exact absurd heq (h 'x' _ (.inl rfl))
  · rename_i heq
    exact absurd heq (h 'X' _ (.inr rfl))
  · rfl

theorem lt_modulus_of_hex (h : Hex.WritesNat ds n) (hshort : ds.length ≤ 64) : n < modulus := by
  calc n < 16 ^ ds.length := h.lt
    _ ≤ 16 ^ 64 := Nat.pow_le_pow_right (by decide) hshort
    _ = modulus := rfl

theorem lt_modulus_of_markedTwice (h : MarkedTwice s n) : n < modulus := by
  cases h with
  | whole _ _ digits _ hshort => exact lt_modulus_of_hex digits hshort
  | bare _ _ digits _ hshort => exact lt_modulus_of_hex digits hshort

/-- **A number is read from a numeral, or from a hexadecimal one that is marked twice, and from no other text.** -/
theorem readUint?_eq_some_iff : readUint? s = some w ↔
    ∃ n, (WritesNumber (trim s) n ∨ MarkedTwice (trim s) n) ∧ n < modulus ∧ w = ofNat n := by
  by_cases hmark : ∃ x ds, IsMarker x ∧ trim s = '0' :: x :: ds
  · obtain ⟨x, ds, hx, htrim⟩ := hmark
    rw [readUint?_marked hx htrim, htrim]
    constructor
    · intro h
      obtain ⟨n, hn | hn, rfl⟩ := cases_of_readHexDigits? hx h
      · exact ⟨n, .inl (.hex hx hn.1 hn.2), lt_modulus_of_hex hn.1 hn.2, rfl⟩
      · exact ⟨n, .inr hn, lt_modulus_of_markedTwice hn, rfl⟩
    · rintro ⟨n, hn | hn, -, rfl⟩
      · cases hn with
        | decimal digits => exact absurd digits (Text.not_writesNat_marked hx)
        | hex _ digits hshort => exact readHexDigits?_of_writesNat digits hshort
      · exact readHexDigits?_of_markedTwice hn
  · have hne : ∀ x r, IsMarker x → trim s ≠ '0' :: x :: r := fun x r hx heq => hmark ⟨x, r, hx, heq⟩
    rw [readUint?_unmarked hne, readDecimal?_eq_some_iff]
    constructor
    · rintro ⟨n, hn, hlt, rfl⟩
      exact ⟨n, .inl (.decimal hn), hlt, rfl⟩
    · rintro ⟨n, hn, hlt, rfl⟩
      generalize trim s = t at hn hne
      rcases hn with hn | hn
      · cases hn with
        | decimal digits => exact ⟨n, digits, hlt, rfl⟩
        | hex hx _ _ => exact absurd rfl (hne _ _ hx)
      · cases hn with
        | whole hx _ _ _ _ => exact absurd rfl (hne _ _ hx)
        | bare hx _ _ _ _ => exact absurd rfl (hne _ _ hx)

/-- **A numeral is read as the word of its number, if there is one.** -/
theorem readUint?_of_writesNumber (h : WritesNumber s n) :
    readUint? s = if n < modulus then some (ofNat n) else none := by
  have htrim := h.trim_eq
  by_cases hlt : n < modulus
  · rw [if_pos hlt]
    exact readUint?_eq_some_iff.2 ⟨n, .inl (htrim.symm ▸ h), hlt, rfl⟩
  · rw [if_neg hlt, Option.eq_none_iff_forall_ne_some]
    intro w hw
    obtain ⟨m, hm, hmlt, -⟩ := readUint?_eq_some_iff.1 hw
    rw [htrim] at hm
    rcases hm with hm | hm
    · exact hlt (h.unique hm ▸ hmlt)
    · exact hm.not_writesNumber h

theorem readUint?_minus (h : WritesNumber s n) : readUint? ('-' :: s) = none := by
  rw [Option.eq_none_iff_forall_ne_some]
  intro w hw
  obtain ⟨m, hm, -⟩ := readUint?_eq_some_iff.1 hw
  rw [h.trim_minus] at hm
  rcases hm with hm | hm
  · exact hm.ne_minus s rfl
  · cases hm

end

/-! ## Integers -/

section
variable {s : List Char} {n : Nat} {v : Int}

theorem readUint?_of_writesInteger (h : WritesInteger s v) :
    readUint? s = if 0 ≤ v ∧ v < modulus then some (ofInt v) else none := by
  cases h with
  | @plain s n number =>
    rw [readUint?_of_writesNumber number]
    by_cases hlt : n < modulus
    · rw [if_pos hlt, if_pos ⟨Int.natCast_nonneg n, Int.ofNat_lt.2 hlt⟩, ofInt_natCast hlt]
    · rw [if_neg hlt, if_neg (by omega)]
  | @minus s n number pos => rw [readUint?_minus number, if_neg (by omega)]

theorem readInt?_plain (h : WritesNumber s n) : readInt? s = if n < half then some (ofNat n) else none := by
  have hhalf : half < modulus := by decide
  unfold readInt?
  rw [h.trim_eq]
  split
  · exact absurd rfl (h.ne_minus _)
  · rw [readUint?_of_writesNumber h]
    by_cases hlt : n < modulus
    · have htop := topBit_iff (ofNat n)
      rw [toNat_ofNat hlt] at htop
      rw [if_pos hlt]
      by_cases hn : n < half
      · simp [hn, htop]
      · simp [hn, htop, Nat.le_of_not_lt hn]
    · rw [if_neg hlt, if_neg (by omega)]

theorem readInt?_minus (h : WritesNumber s n) (hpos : 0 < n) :
    readInt? ('-' :: s) = if n ≤ half then some (ofInt (-n)) else none := by
  have hmodulus : modulus = 2 * half := rfl
  have hhalf : 0 < half := by decide
  unfold readInt?
  rw [h.trim_minus]
  simp only
  rw [readUint?_of_writesNumber h]
  by_cases hlt : n < modulus
  · have hnumber : (ofNat n).toNat = n := toNat_ofNat hlt
    have hzero : (ofNat n).bytes.all (· == 0) = false := by
      rw [Bool.eq_false_iff, ne_eq, all_zero_iff]
      exact fun hz => hpos.ne' (hnumber.symm.trans hz)
    have hnegate : (ofNat n).negate = ofInt (-(n : Int)) := by rw [negate_eq, hnumber]
    have htop : (ofInt (-(n : Int))).topBit = true ↔ n ≤ half := by
      rw [topBit_iff, ofInt_neg hpos.ne' hlt.le, toNat_ofNat (by omega)]
      omega
    rw [if_pos hlt]
    simp only [hzero, Bool.false_eq_true, ↓reduceIte]
    rw [hnegate]
    by_cases hn : n ≤ half
    · rw [if_pos (htop.2 hn), if_pos hn]
    · rw [if_neg fun ht => hn (htop.1 ht), if_neg hn]
  · rw [if_neg hlt, if_neg (by omega)]

/-- **A numeral is read as the two's complement of its integer, if it has one.** -/
theorem readInt?_of_writesInteger (h : WritesInteger s v) :
    readInt? s = if -(half : Int) ≤ v ∧ v < half then some (ofInt v) else none := by
  have hmodulus : modulus = 2 * half := rfl
  cases h with
  | @plain s n number =>
    rw [readInt?_plain number]
    by_cases hlt : n < half
    · rw [if_pos hlt, if_pos (by omega), ofInt_natCast (by omega)]
    · rw [if_neg hlt, if_neg (by omega)]
  | @minus s n number pos =>
    rw [readInt?_minus number pos]
    by_cases hle : n ≤ half
    · rw [if_pos hle, if_pos (by omega)]
    · rw [if_neg hle, if_neg (by omega)]

end

end Word

/-! ## Arguments -/

namespace Token

open Text (trim WritesNumber WritesInteger MarkedTwice)

section
variable {ty : AbiType} {bits : Nat} {j : Json} {t : Token} {v : Int} {s : String}

theorem ofJson_uint_eq_ok_iff : ofJson (.uint bits) j = .ok t ↔ uintOfJson? j = some t := by
  rw [ofJson]
  cases uintOfJson? j <;> simp

theorem ofJson_int_eq_ok_iff : ofJson (.int bits) j = .ok t ↔ intOfJson? j = some t := by
  rw [ofJson]
  cases intOfJson? j <;> simp

theorem ofJson_uint_string :
    ofJson (.uint bits) (.string s) = .ok t ↔ ∃ w, Word.readUint? s.toList = some w ∧ t = .uint w := by
  rw [ofJson_uint_eq_ok_iff, uintOfJson?, Option.map_eq_some_iff]
  exact ⟨fun ⟨w, hw, ht⟩ => ⟨w, hw, ht.symm⟩, fun ⟨w, hw, ht⟩ => ⟨w, hw, ht.symm⟩⟩

theorem ofJson_int_string :
    ofJson (.int bits) (.string s) = .ok t ↔ ∃ w, Word.readInt? s.toList = some w ∧ t = .int w := by
  rw [ofJson_int_eq_ok_iff, intOfJson?, Option.map_eq_some_iff]
  exact ⟨fun ⟨w, hw, ht⟩ => ⟨w, hw, ht.symm⟩, fun ⟨w, hw, ht⟩ => ⟨w, hw, ht.symm⟩⟩

theorem ofJson_uint_numeral (h : WritesInteger s.toList v) :
    ofJson (.uint bits) (.string s) = .ok t ↔ (0 ≤ v ∧ v < Word.modulus) ∧ t = .uint (Word.ofInt v) := by
  rw [ofJson_uint_string, Word.readUint?_of_writesInteger h]
  split
  · rename_i hrange
    simp [hrange, eq_comm]
  · rename_i hrange
    simp [hrange]

theorem ofJson_int_numeral (h : WritesInteger s.toList v) :
    ofJson (.int bits) (.string s) = .ok t ↔ (-(Word.half : Int) ≤ v ∧ v < Word.half) ∧ t = .int (Word.ofInt v) := by
  rw [ofJson_int_string, Word.readInt?_of_writesInteger h]
  split
  · rename_i hrange
    simp [hrange, eq_comm]
  · rename_i hrange
    simp [hrange]

theorem integer?_of_numeral (hty : ty.width? = some bits) (h : WritesInteger s.toList v)
    (hread : ofJson ty (.string s) = .ok t) : t.integer? = some v := by
  cases ty with
  | uint n =>
    obtain ⟨⟨hlow, hhigh⟩, rfl⟩ := (ofJson_uint_numeral h).1 hread
    rw [integer?, Word.toNat_ofInt hlow hhigh]
  | int n =>
    obtain ⟨⟨hlow, hhigh⟩, rfl⟩ := (ofJson_int_numeral h).1 hread
    rw [integer?, Word.toInt_ofInt hlow hhigh]
  | _ => cases hty

theorem exists_ofJson_numeral (hty : ty.width? = some bits) (hw : IsWidth bits) (h : WritesInteger s.toList v)
    (hspans : ty.Spans v) : ∃ t, ofJson ty (.string s) = .ok t := by
  cases ty with
  | uint n =>
    cases hty
    have hpow := hw.pow_le
    have hrange := AbiType.spans_uint.1 hspans
    exact ⟨_, (ofJson_uint_numeral h).2 ⟨⟨hrange.1, by omega⟩, rfl⟩⟩
  | int n =>
    cases hty
    have hhalf := hw.half_le
    have hrange := AbiType.spans_int.1 hspans
    exact ⟨_, (ofJson_int_numeral h).2 ⟨⟨by omega, by omega⟩, rfl⟩⟩
  | _ => cases hty

/-- **Integer text reaches the slot with its value.**  A numeral, in decimal or hexadecimal, is read at an integer type and
encoded exactly when its integer is in the range of the type, and the bytes are the integer in two's complement. -/
theorem literal_of_numeral (hty : ty.width? = some bits) (hw : IsWidth bits) (h : WritesInteger s.toList v) (bs : Bytes) :
    (∃ t, ofJson ty (.string s) = .ok t ∧ encodeLiteral ty t = .ok bs) ↔ ty.Spans v ∧ bs = (Word.ofInt v).bytes := by
  constructor
  · rintro ⟨t, hread, hliteral⟩
    have ht := integer?_of_numeral hty h hread
    have hcheck := check_of_encodeLiteral hliteral
    refine ⟨?_, ?_⟩
    · by_contra hspans
      rw [(check_integer ht hty hw).2 hspans] at hcheck
      cases hcheck
    · rw [encodeLiteral_integer ht hty hcheck] at hliteral
      exact (Except.ok.inj hliteral).symm
  · rintro ⟨hspans, hbs⟩
    obtain ⟨t, hread⟩ := exists_ofJson_numeral hty hw h hspans
    have ht := integer?_of_numeral hty h hread
    rw [hbs]
    exact ⟨t, hread, encodeLiteral_integer ht hty ((check_integer ht hty hw).1 hspans)⟩

theorem literal_of_numeral_extremes :
    (∃ t, ofJson (.int 256)
        (.string "-057896044618658097711785492504343953926634992332820282019728792003956564819968") = .ok t ∧
      encodeLiteral (.int 256) t = .ok (Word.ofInt (-Word.half)).bytes) ∧
    (∃ t, ofJson (.int 8) (.string "-0X80") = .ok t ∧ encodeLiteral (.int 8) t = .ok (Word.ofInt (-128)).bytes) ∧
    ∀ bs, ¬ ∃ t, ofJson (.uint 8) (.string "0x100") = .ok t ∧ encodeLiteral (.uint 8) t = .ok bs := by
  have hleast : WritesInteger "-057896044618658097711785492504343953926634992332820282019728792003956564819968".toList
      (-Word.half) :=
    .minus (.decimal ⟨by decide, List.all_eq_true.1 (by decide), by decide +kernel⟩) (by decide)
  have hbyte : WritesInteger "-0X80".toList (-(128 : Nat)) :=
    .minus (.hex (.inr rfl) ⟨by decide, List.all_eq_true.1 (by decide), by decide⟩ (by decide)) (by decide)
  have hlarge : WritesInteger "0x100".toList (256 : Nat) :=
    .plain (.hex (.inl rfl) ⟨by decide, List.all_eq_true.1 (by decide), by decide⟩ (by decide))
  refine ⟨(literal_of_numeral rfl (by decide) hleast _).2 ⟨by decide +kernel, rfl⟩,
    (literal_of_numeral rfl (by decide) hbyte _).2 ⟨by decide, rfl⟩, fun bs h => ?_⟩
  exact absurd ((literal_of_numeral rfl (by decide) hlarge bs).1 h).1 (by decide)

/-- **What is read as a number.**  Exactly the numerals below `2 ^ 256` are, with the word of their number, unless the text has a
second marker behind the first; then it is no numeral and its last digits are read all the same.  An unsigned type takes the
texts that are read as a number, and no other. -/
theorem readUint?_exact (s : String) :
    (∀ w, Word.readUint? s.toList = some w ↔
      ∃ n, (WritesNumber (trim s.toList) n ∨ MarkedTwice (trim s.toList) n) ∧ n < Word.modulus ∧ w = Word.ofNat n) ∧
    ((∀ w, Word.readUint? s.toList = some w ↔ ∃ n, WritesNumber (trim s.toList) n ∧ n < Word.modulus ∧ w = Word.ofNat n) ↔
      ¬ ∃ n, MarkedTwice (trim s.toList) n) ∧
    (∀ bits t, ofJson (.uint bits) (.string s) = .ok t ↔ ∃ w, Word.readUint? s.toList = some w ∧ t = .uint w) := by
  refine ⟨fun w => Word.readUint?_eq_some_iff, ⟨?_, ?_⟩, fun bits t => ofJson_uint_string⟩
  · rintro hexact ⟨n, hn⟩
    have hread : Word.readUint? s.toList = some (Word.ofNat n) :=
      Word.readUint?_eq_some_iff.2 ⟨n, .inr hn, Word.lt_modulus_of_markedTwice hn, rfl⟩
    obtain ⟨m, hm, -⟩ := (hexact _).1 hread
    exact hn.not_writesNumber hm
  · intro honce w
    rw [Word.readUint?_eq_some_iff]
    constructor
    · rintro ⟨n, hn | hn, hlt, rfl⟩
      · exact ⟨n, hn, hlt, rfl⟩
      · exact absurd ⟨n, hn⟩ honce
    · rintro ⟨n, hn, hlt, rfl⟩
      exact ⟨n, .inl hn, hlt, rfl⟩

/-- **A number behind two markers.** -/
theorem readUint?_secondMarker :
    (Word.readUint? "0x0x12".toList = some (Word.ofNat 0x12) ∧ ∀ n, ¬ WritesNumber (trim "0x0x12".toList) n) ∧
    (Word.readUint? "0xx12".toList = some (Word.ofNat 0x12) ∧ ∀ n, ¬ WritesNumber (trim "0xx12".toList) n) := by
  have hdigits : Hex.WritesNat ['1', '2'] 0x12 := ⟨by decide, List.all_eq_true.1 (by decide), by decide⟩
  have hwhole : MarkedTwice (trim "0x0x12".toList) 0x12 := .whole (.inl rfl) (.inl rfl) hdigits (by decide) (by decide)
  have hbare : MarkedTwice (trim "0xx12".toList) 0x12 := .bare (.inl rfl) (.inl rfl) hdigits (by decide) (by decide)
  exact ⟨⟨by decide +kernel, fun n => hwhole.not_writesNumber⟩, by decide +kernel, fun n => hbare.not_writesNumber⟩

end

end Token
end CallPlan
