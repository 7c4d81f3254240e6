import CallPlan.Text.Numeral
import Mathlib.Data.Nat.Notation
/-!
# What a numeral writes

The number of a row of digits is `Nat.ofDigitChars`.  The reader of digits computes it from the left; a count is such a row,
with or without a plus sign in front, whose number stays below the limit (`readCount?_eq_some_iff`).
-/
namespace CallPlan
namespace Text

/-- **Digits, one at least, that write a number.** -/
def WritesNat (s : List Char) (n : Nat) : Prop := s ≠ [] ∧ (∀ c ∈ s, c.isDigit = true) ∧ Nat.ofDigitChars 10 s 0 = n

/-- **A numeral that writes a count**: digits, leading zeros allowed, that may have a plus sign in front. -/
def WritesCount (s : List Char) (n : Nat) : Prop := ∃ ds, (s = ds ∨ s = '+' :: ds) ∧ WritesNat ds n ∧ n < countLimit

theorem digitValue?_eq (c : Char) : digitValue? c = if c.isDigit = true then some (c.toNat - 48) else none := by
  unfold digitValue? Char.isDigit
  simp [Char.le_def, UInt32.le_iff_toNat_le]

theorem readDigits?_eq : ∀ (s : List Char) (n : Nat),
    readDigits? n s = if s.all Char.isDigit = true then some (Nat.ofDigitChars 10 s n) else none
  | [], n => rfl
  | c :: s, n => by
    rw [readDigits?, digitValue?_eq]
    by_cases hc : c.isDigit = true
    · rw [if_pos hc]
      simp only
      rw [readDigits?_eq s, Nat.ofDigitChars_cons]
      simp [hc]
    · simp [hc]

theorem readNat?_eq_some_iff {s : List Char} {n : Nat} : readNat? s = some n ↔ WritesNat s n := by
  unfold readNat? WritesNat
  cases s with
  | nil => simp
  | cons c s =>
    rw [readDigits?_eq]
    by_cases hall : (c :: s).all Char.isDigit = true
    · simpa [hall] using fun _ => List.all_eq_true.1 hall
    · rw [if_neg (by simp), if_neg hall]
      simp only [reduceCtorEq, false_iff, not_and]
      exact fun _ h => absurd (List.all_eq_true.2 h) hall

theorem readCount?_plus (r : List Char) : readCount? ('+' :: r) = (readNat? r).filter (· < countLimit) := by
  cases hread : readNat? r with
  | none => simp [readCount?, hread]
  | some m => simp [readCount?, hread, Option.filter_some]

theorem readCount?_of_ne {s : List Char} (h : ∀ r, s ≠ '+' :: r) : readCount? s = (readNat? s).filter (· < countLimit) := by
  unfold readCount?
  split
  · rename_i hread
    split at hread
    · exact absurd rfl (h _)
    · simp [hread, Option.filter_some]
  · rename_i hread
    split at hread
    · exact absurd rfl (h _)
    · rw [hread, Option.filter_none]

theorem not_writesNat_plus {ds : List Char} {n : Nat} : ¬ WritesNat ('+' :: ds) n := by
  rintro ⟨-, hdigits, -⟩
  exact absurd (hdigits '+' List.mem_cons_self) (by decide)

/-- **A count is read from exactly the numerals that write it.** -/
theorem readCount?_eq_some_iff {s : List Char} {n : Nat} : readCount? s = some n ↔ WritesCount s n := by
  have hbounded : ∀ ds, (readNat? ds).filter (· < countLimit) = some n ↔ WritesNat ds n ∧ n < countLimit := by
    intro ds
    rw [Option.filter_eq_some_iff, readNat?_eq_some_iff, decide_eq_true_eq]
  unfold WritesCount
  by_cases hplus : ∃ r, s = '+' :: r
  · obtain ⟨r, rfl⟩ := hplus
    rw [readCount?_plus, hbounded]
    constructor
    · exact fun h => ⟨r, .inr rfl, h⟩
    · rintro ⟨ds, rfl | hds, h⟩
      · exact absurd h.1 not_writesNat_plus
      · obtain rfl : r = ds := (List.cons.inj hds).2
        exact h
  · rw [readCount?_of_ne fun r hr => hplus ⟨r, hr⟩, hbounded]
    constructor
    · exact fun h => ⟨s, .inl rfl, h⟩
    · rintro ⟨ds, rfl | rfl, h⟩
      · exact h
      · exact absurd ⟨ds, rfl⟩ hplus

theorem WritesCount.ne_nil {s : List Char} {n : Nat} (h : WritesCount s n) : s ≠ [] := by
  obtain ⟨ds, rfl | rfl, hds, -⟩ := h
  · exact hds.1
  · exact List.cons_ne_nil _ _

theorem WritesCount.mem {s : List Char} {n : Nat} (h : WritesCount s n) {c : Char} (hc : c ∈ s) :
    c = '+' ∨ c.isDigit = true := by
  obtain ⟨ds, rfl | rfl, hds, -⟩ := h
  · exact .inr (hds.2.1 c hc)
  · rcases List.mem_cons.1 hc with rfl | hc
    · exact .inl rfl
    · exact .inr (hds.2.1 c hc)

/-- **The decimal text of a number writes it.** -/
theorem writesNat_decimal (n : Nat) : WritesNat (decimal n) n :=
  ⟨Nat.toDigits_ne_nil, fun _ hc => Nat.isDigit_of_mem_toDigits (by decide) (by decide) hc, Nat.ofDigitChars_ten_toDigits⟩

theorem decimal_inj {m n : Nat} : decimal m = decimal n ↔ m = n := by
  refine ⟨fun h => ?_, congrArg decimal⟩
  rw [← (writesNat_decimal m).2.2, h, (writesNat_decimal n).2.2]

theorem not_mem_decimal {c : Char} (h : c.isDigit = false) (n : Nat) : c ∉ decimal n := by
  intro hc
  rw [(writesNat_decimal n).2.1 c hc] at h
  cases h

theorem writesCount_decimal {n : Nat} (h : n < countLimit) : WritesCount (decimal n) n :=
  ⟨decimal n, .inl rfl, writesNat_decimal n, h⟩

end Text
end CallPlan
