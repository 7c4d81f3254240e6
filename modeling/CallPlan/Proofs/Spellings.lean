import CallPlan.Proofs.Grammar
import CallPlan.Proofs.IntegerTexts
/-!
# Numbers and their numerals

An integer argument can be a JSON number or a text with its numeral.  Spelling out all numbers of an argument that stand where
its type wants an integer (`Json.spelled`) leaves what the argument is read as, but for one case: a signed type takes no number
from `2 ^ 63` on, though it takes the numeral (`Token.ofJson_iff_spelled`).
-/
namespace CallPlan

/-! ## Places -/

/-- **A type and a value that stand for each other inside a type and a value**, at any depth of arrays and tuples. -/
inductive Within : AbiType → Json → AbiType → Json → Prop where
  | self (ty : AbiType) (j : Json) : Within ty j ty j
  | array {ty leaf : AbiType} {j k : Json} {js : List Json} :
      j ∈ js → Within ty j leaf k → Within (.array ty) (.array js) leaf k
  | fixedArray {ty leaf : AbiType} {n : Nat} {j k : Json} {js : List Json} :
      j ∈ js → Within ty j leaf k → Within (.fixedArray ty n) (.array js) leaf k
  | tuple {tys : List AbiType} {ty leaf : AbiType} {j k : Json} {js : List Json} :
      (ty, j) ∈ tys.zip js → Within ty j leaf k → Within (.tuple tys) (.array js) leaf k

/-- **A property of all integers that stand at some place**, of each with the type it stands for. -/
def EachInteger (P : AbiType → Int → Prop) (ty : AbiType) (j : Json) : Prop :=
  ∀ leaf n, Within ty j leaf (.number (.integer n)) → P leaf n

section
variable {P : AbiType → Int → Prop} {ty : AbiType} {tys : List AbiType} {js : List Json} {size : Nat} {n : Int}

theorem eachInteger_number : EachInteger P ty (.number (.integer n)) ↔ P ty n := by
  constructor
  · intro h
    exact h ty n (.self _ _)
  · rintro h _ _ ⟨⟩
    exact h

theorem eachInteger_array : EachInteger P (.array ty) (.array js) ↔ ∀ j ∈ js, EachInteger P ty j := by
  constructor
  · intro h j hj leaf n hwithin
    exact h leaf n (.array hj hwithin)
  · intro h leaf n hwithin
    cases hwithin with
    | array hj hmember => exact h _ hj leaf n hmember

theorem eachInteger_fixedArray : EachInteger P (.fixedArray ty size) (.array js) ↔ ∀ j ∈ js, EachInteger P ty j := by
  constructor
  · intro h j hj leaf n hwithin
    exact h leaf n (.fixedArray hj hwithin)
  · intro h leaf n hwithin
    cases hwithin with
    | fixedArray hj hmember => exact h _ hj leaf n hmember

theorem eachInteger_tuple : EachInteger P (.tuple tys) (.array js) ↔ ∀ p ∈ tys.zip js, EachInteger P p.1 p.2 := by
  constructor
  · intro h p hp leaf n hwithin
    exact h leaf n (.tuple hp hwithin)
  · intro h leaf n hwithin
    cases hwithin with
    | tuple hp hmember => exact h _ hp leaf n hmember

end

/-- The integers that are kept as such when a JSON text is read. -/
def IsKept (_ : AbiType) (n : Int) : Prop := -2 ^ 63 ≤ n ∧ n < 2 ^ 64

/-- The numbers that a signed type takes; at other types no number is kept out. -/
def IsSmall : AbiType → Int → Prop
  | .int _, n => n < 2 ^ 63
  | _,      _ => True

namespace Json

/-- The text with the numeral of an integer. -/
def numeral (n : Int) : Json := .string (Json.number (.integer n)).render

mutual
/-- The value with its numbers spelled out where the type wants an integer. -/
def spelled : AbiType → Json → Json
  | .uint _,          .number (.integer n) => numeral n
  | .int _,           .number (.integer n) => numeral n
  | .array ty,        .array js            => .array (js.map fun j => spelled ty j)
  | .fixedArray ty _, .array js            => .array (js.map fun j => spelled ty j)
  | .tuple tys,       .array js            => .array (spelledEach tys js)
  | _,                j                    => j

def spelledEach : List AbiType → List Json → List Json
  | ty :: tys, j :: js => spelled ty j :: spelledEach tys js
  | _,         js      => js
end

theorem writesInteger_numeral (n : Int) : Text.WritesInteger (Json.number (.integer n)).render.toList n := by
  unfold render
  rw [String.toList_ofList]
  cases n with
  | ofNat n => exact .plain (.decimal (Text.writesNat_decimal n))
  | negSucc n => exact .minus (.decimal (Text.writesNat_decimal (n + 1))) (Nat.succ_pos n)

end Json

namespace Token

/-! ## Numbers -/

section
variable {bits : Nat} {n : Int} {t : Token}

theorem ofInt_eq (hlow : -2 ^ 63 ≤ n) (hhigh : n < 2 ^ 63) : ofInt n = .int (Word.ofInt n) := by
  have hpow : Int.ofNat (Nat.pow 2 128) = 2 ^ 128 := rfl
  unfold ofInt
  rw [hpow]
  by_cases hneg : n < 0
  · rw [if_pos hneg, Word.extend_full (by omega)]
    congr 2
    omega
  · rw [if_neg hneg, Word.extend_zero (by omega)]
    congr 2
    omega

theorem ofJson_uint_number (hhigh : n < 2 ^ 64) :
    ofJson (.uint bits) (.number (.integer n)) = .ok t ↔ 0 ≤ n ∧ t = .uint (Word.ofInt n) := by
  rw [ofJson_uint_eq_ok_iff]
  cases n with
  | ofNat n =>
    have hn : n < 2 ^ 128 := by
      have : (n : Int) < 2 ^ 64 := hhigh
      omega
    rw [uintOfJson?, ofNat, Word.extend_zero hn]
    simp [eq_comm]
  | negSucc n => simp [uintOfJson?]

theorem ofJson_int_number (hlow : -2 ^ 63 ≤ n) :
    ofJson (.int bits) (.number (.integer n)) = .ok t ↔ n < 2 ^ 63 ∧ t = .int (Word.ofInt n) := by
  rw [ofJson_int_eq_ok_iff, intOfJson?, show Int.ofNat Json.maxMagnitude = 2 ^ 63 from rfl]
  by_cases hlt : n < 2 ^ 63
  · rw [if_pos hlt, ofInt_eq hlow hlt, and_iff_right hlt, Option.some_inj]
    exact eq_comm
  · rw [if_neg hlt]
    exact ⟨fun h => (by cases h), fun h => absurd h.1 hlt⟩

theorem ofJson_uint_iff_spelled (hkept : IsKept (.uint bits) n) :
    ofJson (.uint bits) (.number (.integer n)) = .ok t ↔ ofJson (.uint bits) (Json.numeral n) = .ok t := by
  have hmodulus : (n : Int) < Word.modulus := by
    have := hkept.2
    rw [Word.modulus_eq]
    omega
  rw [ofJson_uint_number hkept.2, Json.numeral, ofJson_uint_numeral (Json.writesInteger_numeral n), and_iff_left hmodulus]

theorem ofJson_int_numeral_kept (hkept : IsKept (.int bits) n) :
    ofJson (.int bits) (Json.numeral n) = .ok t ↔ t = .int (Word.ofInt n) := by
  have hrange : -(Word.half : Int) ≤ n ∧ n < Word.half := by
    obtain ⟨hlow, hhigh⟩ := hkept
    rw [Word.half_eq]
    omega
  rw [Json.numeral, ofJson_int_numeral (Json.writesInteger_numeral n), and_iff_right hrange]

theorem ofJson_int_iff_spelled (hkept : IsKept (.int bits) n) :
    ofJson (.int bits) (.number (.integer n)) = .ok t ↔ ofJson (.int bits) (Json.numeral n) = .ok t ∧ n < 2 ^ 63 := by
  rw [ofJson_int_number hkept.1, ofJson_int_numeral_kept hkept, and_comm]

end

/-! ## Lists -/

section
variable {ε α β : Type} {f : α → β} {x : Except ε α} {b : β}

theorem map_eq_ok_iff : x.map f = .ok b ↔ ∃ a, x = .ok a ∧ b = f a := by
  cases x <;> simp [Except.map, eq_comm]

theorem map_if_eq_ok_iff {c : Prop} [Decidable c] {e : ε} :
    (if c then x.map f else .error e) = .ok b ↔ c ∧ ∃ a, x = .ok a ∧ b = f a := by
  by_cases hc : c
  · rw [if_pos hc, and_iff_right hc, map_eq_ok_iff]
  · rw [if_neg hc]
    exact ⟨fun h => (by cases h), fun h => absurd h.1 hc⟩

end

section
variable {ty : AbiType} {tys : List AbiType} {j : Json} {js : List Json} {size : Nat} {t : Token}

theorem ofJson_array : ofJson (.array ty) (.array js) = .ok t ↔
    ∃ ts, List.Forall₂ (fun j t => ofJson ty j = .ok t) js ts ∧ t = .array ts := by
  simp only [← AbiType.mapM_eq_ok_iff]
  rw [ofJson]
  exact map_eq_ok_iff

theorem ofJson_fixedArray : ofJson (.fixedArray ty size) (.array js) = .ok t ↔
    js.length = size ∧ ∃ ts, List.Forall₂ (fun j t => ofJson ty j = .ok t) js ts ∧ t = .fixedArray ts := by
  simp only [← AbiType.mapM_eq_ok_iff]
  rw [ofJson]
  exact map_if_eq_ok_iff

theorem ofJson_tuple : ofJson (.tuple tys) (.array js) = .ok t ↔
    js.length = tys.length ∧ ∃ ts, ofJsonEach tys js = .ok ts ∧ t = .tuple ts := by
  rw [ofJson]
  exact map_if_eq_ok_iff

theorem ofJsonEach_cons {ts : List Token} : ofJsonEach (ty :: tys) (j :: js) = .ok ts ↔
    ∃ u us, ofJson ty j = .ok u ∧ ofJsonEach tys js = .ok us ∧ ts = u :: us := by
  rw [ofJsonEach]
  cases ofJson ty j with
  | error e => simp
  | ok u => cases ofJsonEach tys js <;> simp [eq_comm]

end

/-! ## Spelling out -/

section
variable {ty : AbiType} {j : Json} {js : List Json} {t : Token} {ts : List Token}

theorem iff_spelled_of_eq (hsame : Json.spelled ty j = j) (hsmall : EachInteger IsSmall ty j) :
    ofJson ty j = .ok t ↔ ofJson ty (Json.spelled ty j) = .ok t ∧ EachInteger IsSmall ty j := by
  rw [hsame, and_iff_left hsmall]

theorem forall₂_iff_spelled
    (hitem : ∀ j ∈ js, ∀ t, ofJson ty j = .ok t ↔ ofJson ty (Json.spelled ty j) = .ok t ∧ EachInteger IsSmall ty j) :
    List.Forall₂ (fun j t => ofJson ty j = .ok t) js ts ↔
      List.Forall₂ (fun j t => ofJson ty j = .ok t) (js.map fun j => Json.spelled ty j) ts ∧ ∀ j ∈ js, EachInteger IsSmall ty j := by
  induction js generalizing ts with
  | nil => simp
  | cons j js ih =>
    have hjs := fun k hk => hitem k (List.mem_cons_of_mem j hk)
    cases ts with
    | nil => simp
    | cons t ts =>
      rw [List.map_cons, List.forall₂_cons, List.forall₂_cons, List.forall_mem_cons, hitem j List.mem_cons_self t, ih hjs,
        and_and_and_comm]

end

theorem length_spelledEach : ∀ (tys : List AbiType) (js : List Json), (Json.spelledEach tys js).length = js.length
  | [], _ => by simp [Json.spelledEach]
  | _ :: _, [] => by simp [Json.spelledEach]
  | ty :: tys, j :: js => by rw [Json.spelledEach, List.length_cons, List.length_cons, length_spelledEach tys js]

mutual
theorem ofJson_iff_spelled : ∀ (ty : AbiType) (j : Json) {t : Token}, EachInteger IsKept ty j →
    (ofJson ty j = .ok t ↔ ofJson ty (Json.spelled ty j) = .ok t ∧ EachInteger IsSmall ty j)
  | .address, j, _, _ => iff_spelled_of_eq rfl (by rintro _ _ ⟨⟩; trivial)
  | .bool, j, _, _ => iff_spelled_of_eq rfl (by rintro _ _ ⟨⟩; trivial)
  | .fixedBytes _, j, _, _ => iff_spelled_of_eq rfl (by rintro _ _ ⟨⟩; trivial)
  | .bytes, j, _, _ => iff_spelled_of_eq rfl (by rintro _ _ ⟨⟩; trivial)
  | .string, j, _, _ => iff_spelled_of_eq rfl (by rintro _ _ ⟨⟩; trivial)
  | .uint bits, j, _, hkept => by
    cases j with
    | number m =>
      cases m with
      | integer n =>
        rw [and_iff_left (eachInteger_number.2 trivial)]
        exact ofJson_uint_iff_spelled (eachInteger_number.1 hkept)
      | double d => exact iff_spelled_of_eq rfl (by rintro _ _ ⟨⟩)
    | _ => exact iff_spelled_of_eq rfl (by rintro _ _ ⟨⟩)
  | .int bits, j, _, hkept => by
    cases j with
    | number m =>
      cases m with
      | integer n =>
        rw [eachInteger_number]
        exact ofJson_int_iff_spelled (eachInteger_number.1 hkept)
      | double d => exact iff_spelled_of_eq rfl (by rintro _ _ ⟨⟩)
    | _ => exact iff_spelled_of_eq rfl (by rintro _ _ ⟨⟩)
  | .array ty, j, _, hkept => by
    cases j with
    | array js =>
      have hitem := fun k hk (t : Token) => ofJson_iff_spelled ty k (t := t) (eachInteger_array.1 hkept k hk)
      rw [Json.spelled, ofJson_array, ofJson_array, eachInteger_array]
      simp only [forall₂_iff_spelled hitem]
      grind
    | _ => exact iff_spelled_of_eq rfl (by rintro _ _ ⟨⟩ <;> trivial)
  | .fixedArray ty size, j, _, hkept => by
    cases j with
    | array js =>
      have hitem := fun k hk (t : Token) => ofJson_iff_spelled ty k (t := t) (eachInteger_fixedArray.1 hkept k hk)
      rw [Json.spelled, ofJson_fixedArray, ofJson_fixedArray, eachInteger_fixedArray, List.length_map]
      simp only [forall₂_iff_spelled hitem]
      grind
    | _ => exact iff_spelled_of_eq rfl (by rintro _ _ ⟨⟩ <;> trivial)
  | .tuple tys, j, _, hkept => by
    cases j with
    | array js =>
      rw [Json.spelled, ofJson_tuple, ofJson_tuple, eachInteger_tuple, length_spelledEach]
      simp only [ofJsonEach_iff_spelled tys js (eachInteger_tuple.1 hkept)]
      grind
    | _ => exact iff_spelled_of_eq rfl (by rintro _ _ ⟨⟩ <;> trivial)

theorem ofJsonEach_iff_spelled : ∀ (tys : List AbiType) (js : List Json) {ts : List Token},
    (∀ p ∈ tys.zip js, EachInteger IsKept p.1 p.2) →
    (ofJsonEach tys js = .ok ts ↔
      ofJsonEach tys (Json.spelledEach tys js) = .ok ts ∧ ∀ p ∈ tys.zip js, EachInteger IsSmall p.1 p.2)
  | [], js, _, _ => by simp [Json.spelledEach]
  | _ :: _, [], _, _ => by simp [Json.spelledEach]
  | ty :: tys, j :: js, ts, hkept => by
    rw [List.zip_cons_cons, List.forall_mem_cons] at hkept
    rw [Json.spelledEach, ofJsonEach_cons, ofJsonEach_cons, List.zip_cons_cons, List.forall_mem_cons]
    simp only [ofJson_iff_spelled ty j hkept.1, ofJsonEach_iff_spelled tys js hkept.2]
    grind
end

theorem ofJson_int_large {bits : Nat} {n : Int} (hlarge : 2 ^ 63 ≤ n) :
    ofJson (.int bits) (.number (.integer n)) = .error (refusal (.int bits) (.number (.integer n))) := by
  rw [ofJson, intOfJson?, show Int.ofNat Json.maxMagnitude = 2 ^ 63 from rfl, if_neg (Int.not_lt.2 hlarge)]

/-- **Numbers and numerals are read alike, but for large numbers at signed types.**  A value is read as it is with its numbers
spelled out, and so are two values that are the same then, unless some number from `2 ^ 63` on stands for a signed integer: the
number is refused and the numeral is not. -/
theorem ofJson_spelled {ty : AbiType} {j : Json} (hkept : EachInteger IsKept ty j) :
    (∀ t, ofJson ty j = .ok t ↔ ofJson ty (Json.spelled ty j) = .ok t ∧ EachInteger IsSmall ty j) ∧
    (∀ k, EachInteger IsKept ty k → Json.spelled ty k = Json.spelled ty j → EachInteger IsSmall ty k → EachInteger IsSmall ty j →
      ∀ t, ofJson ty k = .ok t ↔ ofJson ty j = .ok t) ∧
    ∀ bits n, 2 ^ 63 ≤ n → n < 2 ^ 64 →
      ofJson (.int bits) (.number (.integer n)) = .error (refusal (.int bits) (.number (.integer n))) ∧
      ofJson (.int bits) (Json.numeral n) = .ok (.int (Word.ofInt n)) := by
  refine ⟨fun t => ofJson_iff_spelled ty j hkept, ?_, ?_⟩
  · intro k hkeptk hsame hsmallk hsmall t
    rw [ofJson_iff_spelled ty k hkeptk, ofJson_iff_spelled ty j hkept, hsame, and_iff_left hsmallk, and_iff_left hsmall]
  · intro bits n hlarge hlt
    have hn : IsKept (.int bits) n := ⟨by omega, hlt⟩
    exact ⟨ofJson_int_large hlarge, (ofJson_int_numeral_kept hn).2 rfl⟩

theorem ofJson_spelled_nested :
    (∀ t, ofJson (.tuple [.array (.int 256), .uint 64])
        (.array [.array [.number (.integer (-9223372036854775808)), .string "0x7"], .number (.integer 18446744073709551615)])
          = .ok t ↔
      ofJson (.tuple [.array (.int 256), .uint 64])
        (.array [.array [.string "-9223372036854775808", .string "0x7"], .string "18446744073709551615"]) = .ok t) ∧
    ∀ t, ofJson (.array (.int 256)) (.array [.number (.integer 9223372036854775808)]) ≠ .ok t := by
  have hkept : EachInteger IsKept (.tuple [.array (.int 256), .uint 64])
      (.array [.array [.number (.integer (-9223372036854775808)), .string "0x7"], .number (.integer 18446744073709551615)]) := by
    have htext : EachInteger IsKept (.int 256) (.string "0x7") := by rintro _ _ ⟨⟩
    simp [eachInteger_tuple, eachInteger_array, eachInteger_number, IsKept, htext]
  have hsmall : EachInteger IsSmall (.tuple [.array (.int 256), .uint 64])
      (.array [.array [.number (.integer (-9223372036854775808)), .string "0x7"], .number (.integer 18446744073709551615)]) := by
    have htext : EachInteger IsSmall (.int 256) (.string "0x7") := by rintro _ _ ⟨⟩
    simp [eachInteger_tuple, eachInteger_array, eachInteger_number, IsSmall, htext]
  have hlarge : EachInteger IsKept (.array (.int 256)) (.array [.number (.integer 9223372036854775808)]) := by
    simp [eachInteger_array, eachInteger_number, IsKept]
  refine ⟨fun t => ?_, fun t h => ?_⟩
  · rw [(ofJson_spelled hkept).1 t, and_iff_left hsmall]
    rfl
  · have := (((ofJson_spelled hlarge).1 t).1 h).2
    simp [eachInteger_array, eachInteger_number, IsSmall] at this

/-- **A number that is refused, and its numeral that is not.** -/
theorem ofJson_int_large_number :
    ofJson (.int 256) (.number (.integer 9223372036854775808)) =
      .error (.request (.cannotUse "9223372036854775808" "int256")) ∧
    ofJson (.int 256) (.string "9223372036854775808") = .ok (.int (Word.ofNat 9223372036854775808)) := by
  constructor
  · rfl
  · exact ofJson_int_string.2 ⟨_, by decide +kernel, rfl⟩

end Token
end CallPlan
