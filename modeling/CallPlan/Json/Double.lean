import CallPlan.Text.Numeral
/-!
# Doubles and decimals

From decimal to double: a significand below `2 ^ 64` is converted and then multiplied or divided once by a power of ten, all
in double arithmetic, so the result can be one unit off the nearest double.  From double to decimal: the fewest digits
that read back as the same double, the nearest of those, found in exact arithmetic on the double's mantissa and exponent.
Reading is that of `serde_json` without its feature `float_roundtrip`, whose documentation says that the last digit can differ;
writing has the digits and the forms that the `ryu` package documents.
-/
namespace CallPlan
namespace Double

/-! ## From decimal to double -/

def pow10 (k : Nat) : Float := Float.ofScientific 1 false k

/-- A double divided by `10 ^ k`.  A power beyond `10 ^ 308` is no double, so it is divided out in steps. -/
def divPow10 (f : Float) (k : Nat) : Float :=
  if k ≤ 308 then f / pow10 k
  else if f == 0 then f
  else divPow10 (f / pow10 308) (k - 308)
termination_by k

/-- A double multiplied by `10 ^ k`, if it stays finite. -/
def mulPow10? (f : Float) (k : Nat) : Option Float :=
  if k ≤ 308 then
    let g := f * pow10 k
    if g.isInf then none else some g
  else if f == 0 then some f
  else none

/-- The bits of the double that a significand, a power of ten and a sign give, if it is finite. -/
def ofDecimal? (negative : Bool) (significand : Nat) (exponent : Int) : Option UInt64 :=
  let f := (UInt64.ofNat significand).toFloat
  let scaled := if 0 ≤ exponent then mulPow10? f exponent.toNat else some (divPow10 f (-exponent).toNat)
  scaled.map fun g => (if negative then -g else g).toBits

/-! ## From double to decimal -/

/-- A positive double as `mantissa * 2 ^ exponent`. -/
structure Parts where
  mantissa : Nat
  exponent : Int

/-- The bit above the 52 that are stored of a mantissa. -/
def hiddenBit : Nat := Nat.pow 2 52

/-- The bit of the sign. -/
def signBit : Nat := Nat.pow 2 63

def parts (bits : UInt64) : Parts :=
  let biased := (bits.toNat / hiddenBit) % 2048
  let fraction := bits.toNat % hiddenBit
  if biased = 0 then ⟨fraction, -1074⟩ else ⟨hiddenBit + fraction, Int.ofNat biased - 1075⟩

def isNegative (bits : UInt64) : Bool := bits.toNat / signBit = 1

/-- The decimals that read back as a double: those between two ends over a common denominator, the ends belonging to them
or not. -/
structure Interval where
  low : Nat
  value : Nat
  high : Nat
  denominator : Nat
  closed : Bool

/-- The interval of a double.  Below a power of two the next double is half as far away. -/
def Parts.interval (p : Parts) : Interval :=
  let below := if p.mantissa = hiddenBit ∧ -1074 < p.exponent then 1 else 2
  let up := Nat.pow 2 (p.exponent - 2).toNat
  { low := (4 * p.mantissa - below) * up
    value := 4 * p.mantissa * up
    high := (4 * p.mantissa + 2) * up
    denominator := Nat.pow 2 (2 - p.exponent).toNat
    closed := p.mantissa % 2 = 0 }

/-- The interval with everything multiplied by a power of ten. -/
def Interval.shift (v : Interval) (k : Int) : Interval :=
  let up := Nat.pow 10 k.toNat
  { v with
    low := v.low * up
    value := v.value * up
    high := v.high * up
    denominator := v.denominator * Nat.pow 10 (-k).toNat }

/-- Whether a whole number lies in the interval. -/
def Interval.contains (v : Interval) (n : Nat) : Bool :=
  if v.closed then v.low ≤ n * v.denominator && n * v.denominator ≤ v.high
  else v.low < n * v.denominator && n * v.denominator < v.high

/-- The number of decimal digits in front of the point. -/
def Interval.wholeDigits (v : Interval) : Nat :=
  if v.value < v.denominator then 0 else (Text.decimal (v.value / v.denominator)).length

/-- The least `j`, tried up to a bound, for which the value times `10 ^ j` is at least one. -/
def Interval.leadingZeros (v : Interval) : Nat → Nat → Nat
  | 0,        j => j
  | tries + 1, j => if v.denominator ≤ v.value * Nat.pow 10 j then j else v.leadingZeros tries (j + 1)

/-- The power of ten of the first digit. -/
def Interval.magnitude (v : Interval) : Int :=
  if v.denominator ≤ v.value then (v.wholeDigits : Int) - 1 else -(v.leadingZeros 400 0 : Int)

/-- The whole number in the interval that is nearest to its value, an even one of two. -/
def Interval.nearest? (v : Interval) : Option Nat :=
  let n := v.value / v.denominator
  let r := v.value % v.denominator
  match v.contains n, v.contains (n + 1) with
  | false, false => none
  | true,  false => some n
  | false, true  => some (n + 1)
  | true,  true  =>
    if 2 * r < v.denominator then some n
    else if v.denominator < 2 * r then some (n + 1)
    else if n % 2 = 0 then some n else some (n + 1)

/-- The shortest decimal, tried from a number of digits on: a whole number and the power of ten that it is multiplied by. -/
def Interval.shortestFrom (v : Interval) (magnitude : Int) (digits : Nat) : Nat → Nat × Int
  | 0         => (0, 0)
  | tries + 1 =>
    let k : Int := digits - 1 - magnitude
    match (v.shift k).nearest? with
    | some n => (n, -k)
    | none   => v.shortestFrom magnitude (digits + 1) tries

/-- The shortest decimal of a positive double: its digits and the power of ten of the first of them. -/
def shortest (bits : UInt64) : List Char × Int :=
  let v := (parts bits).interval
  let (n, k) := v.shortestFrom v.magnitude 1 20
  let digits := Text.decimal n
  let trimmed := (digits.reverse.dropWhile (· = '0')).reverse
  (trimmed, k + digits.length - 1)

/-! ## The text of a double -/

/-- Where decimals are written without an exponent, by the power of ten of their first digit. -/
structure Format where
  leastPlain : Int
  greatestPlain : Int

/-- In JSON a double is written plainly from `0.00001` up to, not including, `1e+16`. -/
def jsonFormat : Format := ⟨-5, 15⟩

/-- Digits with the point behind the digit of power zero, and at least one digit behind the point. -/
def plain (digits : List Char) (magnitude : Int) : List Char :=
  if magnitude < 0 then
    '0' :: '.' :: List.replicate (-magnitude - 1).toNat '0' ++ digits
  else
    let whole := magnitude.toNat + 1
    let fraction := digits.drop whole
    Text.padEnd whole '0' (digits.take whole) ++ '.' :: (if fraction.isEmpty then ['0'] else fraction)

/-- Digits with the point behind the first, and the power of ten of the first. -/
def scientific (digits : List Char) (magnitude : Int) : List Char :=
  let fraction := digits.drop 1
  digits.take 1 ++ (if fraction.isEmpty then [] else '.' :: fraction)
    ++ 'e' :: (if magnitude < 0 then '-' else '+') :: Text.decimal magnitude.natAbs

/-- The text of a finite double. -/
def chars (f : Format) (bits : UInt64) : List Char :=
  let sign := if isNegative bits then ['-'] else []
  if bits.toNat % signBit = 0 then sign ++ ['0', '.', '0']
  else
    let (digits, magnitude) := shortest bits
    sign ++ (if f.leastPlain ≤ magnitude ∧ magnitude ≤ f.greatestPlain then plain digits magnitude
      else scientific digits magnitude)

end Double
end CallPlan
