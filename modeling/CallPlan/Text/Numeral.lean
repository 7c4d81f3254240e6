/-!
# Decimal numerals

Numbers are written without leading zeros.  Two readers differ in what they let through: `readNat?` takes digits of any
number, `readCount?` takes a count below `2 ^ 64`, which may carry a plus sign.
-/
namespace CallPlan
namespace Text

/-- The decimal digits of a number. -/
def decimal (n : Nat) : List Char := Nat.toDigits 10 n

/-- The decimal text of a number. -/
def decimalString (n : Nat) : String := String.ofList (decimal n)

def digitValue? (c : Char) : Option Nat := if '0' ≤ c ∧ c ≤ '9' then some (c.toNat - 48) else none

/-- The number that decimal digits write behind those of `n`. -/
def readDigits? (n : Nat) : List Char → Option Nat
  | []     => some n
  | c :: s =>
    match digitValue? c with
    | some d => readDigits? (10 * n + d) s
    | none   => none

/-- One or more decimal digits, leading zeros allowed. -/
def readNat? (s : List Char) : Option Nat := if s.isEmpty then none else readDigits? 0 s

/-- The number that counts stay below. -/
def countLimit : Nat := Nat.pow 2 64

/-- A count: a number below `2 ^ 64`, which may carry a plus sign. -/
def readCount? (s : List Char) : Option Nat :=
  match readNat? (match s with | '+' :: r => r | r => r) with
  | some n => if n < countLimit then some n else none
  | none   => none

/-- The text filled up on the left with `c` to at least `n` characters. -/
def padStart (n : Nat) (c : Char) (s : List Char) : List Char := List.replicate (n - s.length) c ++ s

/-- The text filled up on the right with `c` to at least `n` characters. -/
def padEnd (n : Nat) (c : Char) (s : List Char) : List Char := s ++ List.replicate (n - s.length) c

end Text
end CallPlan
