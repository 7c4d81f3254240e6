import CallPlan.Bytes.Hex
import CallPlan.Proofs.Words
import CallPlan.Text.Blank
/-!
# What hexadecimal digits write

The number of a row of hexadecimal digits, of either case, is `Hex.ofDigitChars`.  A text is decoded exactly when it is an
even number of digits, and then to the bytes of that number, one for every two digits (`Hex.decode_eq_ok_iff`).
-/
namespace CallPlan
namespace Hex

/-- The value of a digit of either case. -/
def digit (c : Char) : Nat := "0123456789abcdef".toList.idxOf c.toLower

/-- The number that hexadecimal digits write behind those of `n`. -/
def ofDigitChars (ds : List Char) (n : Nat) : Nat := ds.foldl (fun n c => 16 * n + digit c) n

/-- **Hexadecimal digits, one at least, that write a number.** -/
def WritesNat (ds : List Char) (n : Nat) : Prop := ds ≠ [] ∧ (∀ c ∈ ds, c.isHexDigit = true) ∧ ofDigitChars ds 0 = n

/-! ## Digits -/

theorem isHexDigit_iff (c : Char) : c.isHexDigit = true ↔
    (48 ≤ c.toNat ∧ c.toNat ≤ 57) ∨ (97 ≤ c.toNat ∧ c.toNat ≤ 102) ∨ (65 ≤ c.toNat ∧ c.toNat ≤ 70) := by
  unfold Char.isHexDigit Char.isDigit
  simp only [ge_iff_le, UInt32.le_iff_toNat_le, Bool.or_eq_true, Bool.and_eq_true, decide_eq_true_eq, or_assoc]
  exact Iff.rfl

theorem toNat_lt_of_isHexDigit {c : Char} (h : c.isHexDigit = true) : c.toNat < 128 := by
  have := (isHexDigit_iff c).1 h
  omega

theorem digitValue?_of_lt : ∀ n < 128,
    (digitValue? (.ofNat n) = if (Char.ofNat n).isHexDigit = true then some (digit (.ofNat n)) else none) ∧
      ((Char.ofNat n).isHexDigit = true → digit (.ofNat n) < 16) := by
  decide +kernel

theorem digit_lt {c : Char} (h : c.isHexDigit = true) : digit c < 16 := by
  have hdigit := (digitValue?_of_lt c.toNat (toNat_lt_of_isHexDigit h)).2
  rw [Char.ofNat_toNat] at hdigit
  exact hdigit h

theorem hexLetter_digit_of_lt : ∀ n < 128, (Char.ofNat n).isHexDigit = true →
    Text.hexLetter (digit (.ofNat n)) = (Char.ofNat n).toLower := by
  decide +kernel

theorem hexLetter_digit {c : Char} (h : c.isHexDigit = true) : Text.hexLetter (digit c) = c.toLower := by
  have hletter := hexLetter_digit_of_lt c.toNat (toNat_lt_of_isHexDigit h)
  rw [Char.ofNat_toNat] at hletter
  exact hletter h

theorem isBlank_of_isHexDigit {c : Char} (h : c.isHexDigit = true) : Text.isBlank c = false := by
  have := (isHexDigit_iff c).1 h
  unfold Text.isBlank
  simp
  omega

theorem digitValue?_eq_some_iff {c : Char} {x : Nat} : digitValue? c = some x ↔ c.isHexDigit = true ∧ x = digit c := by
  by_cases hlt : c.toNat < 128
  · have hvalue := (digitValue?_of_lt c.toNat hlt).1
    rw [Char.ofNat_toNat] at hvalue
    rw [hvalue]
    by_cases hdigit : c.isHexDigit = true
    · simp [hdigit, eq_comm]
    · simp [hdigit]
  · have hle : ∀ d : Char, d.toNat < 128 → ¬ c ≤ d := fun d hd hcd => hlt (Nat.lt_of_le_of_lt hcd hd)
    have hnone : digitValue? c = none := by
      unfold digitValue?
      rw [if_neg fun h => hle '9' (by decide) h.2, if_neg fun h => hle 'f' (by decide) h.2,
        if_neg fun h => hle 'F' (by decide) h.2]
    have hdigit : ¬ c.isHexDigit = true := by
      rw [isHexDigit_iff]
      omega
    simp [hnone, hdigit]

theorem utf8Size_of_isHexDigit {c : Char} (h : c.isHexDigit = true) : c.utf8Size = 1 := by
  rw [Char.utf8Size_eq_one_iff]
  exact Nat.le_of_lt_succ (toNat_lt_of_isHexDigit h)

theorem width_eq_length : ∀ {ds : List Char}, (∀ c ∈ ds, c.isHexDigit = true) → width ds = ds.length
  | [], _ => rfl
  | c :: ds, h => by
    rw [width, utf8Size_of_isHexDigit (h c List.mem_cons_self), width_eq_length fun x hx => h x (List.mem_cons_of_mem c hx),
      List.length_cons, Nat.add_comm]

theorem ofDigitChars_cons (c : Char) (ds : List Char) (n : Nat) :
    ofDigitChars (c :: ds) n = ofDigitChars ds (16 * n + digit c) := rfl

theorem ofDigitChars_lt : ∀ {ds : List Char} {n b : Nat}, (∀ c ∈ ds, c.isHexDigit = true) → n < b →
    ofDigitChars ds n < b * 16 ^ ds.length
  | [], n, b, _, h => by simpa [ofDigitChars] using h
  | c :: ds, n, b, hdigits, h => by
    have hdigit := digit_lt (hdigits c List.mem_cons_self)
    have hstep : ofDigitChars ds (16 * n + digit c) < 16 * b * 16 ^ ds.length :=
      ofDigitChars_lt (fun x hx => hdigits x (List.mem_cons_of_mem c hx)) (by omega)
    rw [ofDigitChars_cons, List.length_cons, pow_succ']
    calc ofDigitChars ds (16 * n + digit c) < 16 * b * 16 ^ ds.length := hstep
      _ = b * (16 * 16 ^ ds.length) := by ring

theorem WritesNat.lt {ds : List Char} {n : Nat} (h : WritesNat ds n) : n < 16 ^ ds.length := by
  have hlt := ofDigitChars_lt h.2.1 Nat.one_pos
  rwa [h.2.2, Nat.one_mul] at hlt

/-! ## Bytes -/

theorem toNat_ofNat_digits {a b : Char} (ha : a.isHexDigit = true) (hb : b.isHexDigit = true) :
    (UInt8.ofNat (16 * digit a + digit b)).toNat = 16 * digit a + digit b := by
  have hhigh := digit_lt ha
  have hlow := digit_lt hb
  rw [UInt8.toNat_ofNat']
  omega

theorem decodeFrom_ok (ds : List Char) : ∀ {i : Nat} {bs : Bytes}, decodeFrom i ds = .ok bs →
    (∀ c ∈ ds, c.isHexDigit = true) ∧ ds.length = 2 * bs.length ∧
      ∀ n, bs.foldl (fun n b => 256 * n + b.toNat) n = ofDigitChars ds n := by
  intro i bs h
  fun_induction decodeFrom i ds generalizing bs with
  | case1 => cases h; simp [ofDigitChars]
  | case2 => cases h
  | case3 => cases h
  | case4 => cases h
  | case5 => cases h
  | case6 i a b s x y hy hx ih =>
    cases hrest : decodeFrom (i + 2) s with
    | error e => rw [hrest] at h; cases h
    | ok t =>
      rw [hrest] at h
      cases h
      obtain ⟨hdigits, hlen, hvalue⟩ := ih hrest
      obtain ⟨ha, rfl⟩ := digitValue?_eq_some_iff.1 hx
      obtain ⟨hb, rfl⟩ := digitValue?_eq_some_iff.1 hy
      refine ⟨?_, by simp [hlen]; omega, fun n => ?_⟩
      · intro c hc
        rcases List.mem_cons.1 hc with rfl | hc
        · exact ha
        · rcases List.mem_cons.1 hc with rfl | hc
          · exact hb
          · exact hdigits c hc
      · rw [List.foldl_cons, hvalue, toNat_ofNat_digits ha hb, ofDigitChars_cons, ofDigitChars_cons]
        congr 1
        ring

theorem exists_decodeFrom {ds : List Char} (i : Nat) (hdigits : ∀ c ∈ ds, c.isHexDigit = true) (heven : ds.length % 2 = 0) :
    ∃ bs, decodeFrom i ds = .ok bs := by
  have hnone : ∀ {c : Char}, c ∈ ds → digitValue? c ≠ none := by
    intro c hc hnone
    have hsome := digitValue?_eq_some_iff.2 ⟨hdigits c hc, rfl⟩
    rw [hnone] at hsome
    cases hsome
  fun_induction decodeFrom i ds with
  | case1 => exact ⟨[], rfl⟩
  | case2 => cases heven
  | case3 => cases heven
  | case4 i a b s ha => exact absurd ha (hnone List.mem_cons_self)
  | case5 i a b s x hb hx => exact absurd hb (hnone (List.mem_cons_of_mem _ List.mem_cons_self))
  | case6 i a b s x y hy hx ih =>
    have heven' : s.length % 2 = 0 := by
      simp only [List.length_cons] at heven
      omega
    obtain ⟨bs, hbs⟩ := ih (fun c hc => hdigits c (by simp [hc])) heven' fun hc => hnone (by simp [hc])
    exact ⟨UInt8.ofNat (16 * x + y) :: bs, by rw [hbs]; rfl⟩

theorem decode_eq_decodeFrom {ds : List Char} (hdigits : ∀ c ∈ ds, c.isHexDigit = true) (heven : ds.length % 2 = 0) :
    decode ds = decodeFrom 0 ds := by
  rw [decode, width_eq_length hdigits, if_neg (by omega)]

theorem decodeFrom_of_decode {ds : List Char} {bs : Bytes} (h : decode ds = .ok bs) : decodeFrom 0 ds = .ok bs := by
  unfold decode at h
  split at h
  · cases h
  · exact h

/-- **A text is decoded exactly when it is an even number of digits, and then to the bytes of the number that they write.** -/
theorem decode_eq_ok_iff {ds : List Char} {bs : Bytes} : decode ds = .ok bs ↔
    (∀ c ∈ ds, c.isHexDigit = true) ∧ ds.length = 2 * bs.length ∧ ofBigEndian bs = ofDigitChars ds 0 := by
  constructor
  · intro h
    obtain ⟨hdigits, hlen, hvalue⟩ := decodeFrom_ok ds (decodeFrom_of_decode h)
    exact ⟨hdigits, hlen, hvalue 0⟩
  · rintro ⟨hdigits, hlen, hvalue⟩
    have heven : ds.length % 2 = 0 := by omega
    obtain ⟨cs, hcs⟩ := exists_decodeFrom 0 hdigits heven
    obtain ⟨-, hlen', hvalue'⟩ := decodeFrom_ok ds hcs
    -- as many bytes that write the same number are the same bytes
    have hsame : cs = bs := by
      rw [← bigEndian_ofBigEndian cs, ← bigEndian_ofBigEndian bs, hvalue, show ofBigEndian cs = _ from hvalue' 0]
      congr 1
      omega
    rw [decode_eq_decodeFrom hdigits heven, hcs, hsame]

theorem digitValue?_hexLetter : ∀ n < 16, digitValue? (Text.hexLetter n) = some n := by decide

theorem decodeFrom_digits : ∀ (bs : Bytes) (i : Nat), decodeFrom i (digits bs) = .ok bs
  | [], _ => rfl
  | b :: bs, i => by
    have hlt := b.toNat_lt
    show decodeFrom i (Text.hexLetter (b.toNat / 16) :: Text.hexLetter (b.toNat % 16) :: digits bs) = _
    rw [decodeFrom, digitValue?_hexLetter _ (by omega), digitValue?_hexLetter _ (by omega)]
    simp only
    rw [decodeFrom_digits bs (i + 2), Nat.div_add_mod, UInt8.ofNat_toNat]
    rfl

theorem isHexDigit_of_mem_digits {bs : Bytes} {c : Char} (h : c ∈ digits bs) : c.isHexDigit = true :=
  (decodeFrom_ok _ (decodeFrom_digits bs 0)).1 c h

theorem length_digits (bs : Bytes) : (digits bs).length = 2 * bs.length :=
  (decodeFrom_ok _ (decodeFrom_digits bs 0)).2.1

theorem byteDigits_ofNat {a b : Char} (ha : a.isHexDigit = true) (hb : b.isHexDigit = true) :
    byteDigits (.ofNat (16 * digit a + digit b)) = [a.toLower, b.toLower] := by
  have hlow := digit_lt hb
  rw [byteDigits, toNat_ofNat_digits ha hb, show (16 * digit a + digit b) / 16 = digit a by omega,
    show (16 * digit a + digit b) % 16 = digit b by omega, hexLetter_digit ha, hexLetter_digit hb]

/-- **The bytes of digits are written with these digits in lower case.** -/
theorem digits_of_decodeFrom (ds : List Char) : ∀ {i : Nat} {bs : Bytes}, decodeFrom i ds = .ok bs →
    digits bs = ds.map Char.toLower := by
  intro i bs h
  fun_induction decodeFrom i ds generalizing bs with
  | case1 => cases h; rfl
  | case2 => cases h
  | case3 => cases h
  | case4 => cases h
  | case5 => cases h
  | case6 i a b s x y hy hx ih =>
    cases hrest : decodeFrom (i + 2) s with
    | error e => rw [hrest] at h; cases h
    | ok t =>
      rw [hrest] at h
      cases h
      obtain ⟨ha, rfl⟩ := digitValue?_eq_some_iff.1 hx
      obtain ⟨hb, rfl⟩ := digitValue?_eq_some_iff.1 hy
      rw [digits, List.flatMap_cons, byteDigits_ofNat ha hb, ← digits, ih hrest]
      rfl

/-- **Digits tell the bytes.** -/
theorem digits_inj {bs cs : Bytes} : digits bs = digits cs ↔ bs = cs := by
  refine ⟨fun h => ?_, congrArg digits⟩
  have hbs := decodeFrom_digits bs 0
  rw [h, decodeFrom_digits] at hbs
  exact (Except.ok.inj hbs).symm

theorem take_digits (n : Nat) (bs : Bytes) : (digits bs).take (2 * n) = digits (bs.take n) := by
  have hsplit : digits bs = digits (bs.take n) ++ digits (bs.drop n) := by
    rw [digits, digits, digits, ← List.flatMap_append, List.take_append_drop]
  rw [hsplit, List.take_append, length_digits, List.length_take]
  by_cases hn : n ≤ bs.length
  · simp [hn, List.take_of_length_le, length_digits]
  · rw [List.drop_of_length_le (by omega), List.take_of_length_le (by rw [length_digits, List.length_take]; omega)]
    simp [digits]

/-! ## Markers -/

/-- **The letter behind the zero of a marker.** -/
def IsMarker (x : Char) : Prop := x = 'x' ∨ x = 'X'

instance (x : Char) : Decidable (IsMarker x) := inferInstanceAs (Decidable (_ ∨ _))

theorem IsMarker.not_digit {x : Char} (h : IsMarker x) : x.isDigit = false ∧ x.isHexDigit = false ∧ x.utf8Size = 1 := by
  rcases h with rfl | rfl
  · decide
  · decide

theorem dropMarker_marked {x : Char} (h : IsMarker x) (s : List Char) : dropMarker ('0' :: x :: s) = s := by
  rcases h with rfl | rfl
  · rfl
  · rfl

theorem dropMarker_of_ne {s : List Char} (h : ∀ x r, IsMarker x → s ≠ '0' :: x :: r) : dropMarker s = s := by
  unfold dropMarker
  split
  · exact absurd rfl (h 'x' _ (.inl rfl))
  · exact absurd rfl (h 'X' _ (.inr rfl))
  · rfl

end Hex
end CallPlan
