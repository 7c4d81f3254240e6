import CallPlan.Bytes.Hex
import CallPlan.Json.Cursor
import CallPlan.Json.Double
import CallPlan.Json.Value
/-!
# Reading JSON

The grammar of JSON, with values nested at most 127 deep.  Nothing but the four JSON blanks may stand around a value; a
byte-order mark, a lone surrogate escape, a control character in a string and a number too large for a double are refused.
The limit on nesting is the recursion limit that `serde_json` documents, and the faults are those of its `Error`.
-/
namespace CallPlan
namespace Json

/-- The greatest significand that is kept exactly. -/
def maxSignificand : Nat := Nat.pow 2 64 - 1

/-- The greatest exponent that is told from larger ones. -/
def maxExponent : Nat := Nat.pow 2 31 - 1

/-- The greatest number whose negative is kept as an integer. -/
def maxMagnitude : Nat := Nat.pow 2 63

namespace Read

/-! ## Numbers -/

def isDigit (c : Char) : Bool := (Text.digitValue? c).isSome

/-- Digits taken into a significand as long as it stays small enough, and how many were taken. -/
def accumulate (significand taken : Nat) : List Char → Nat × Nat
  | []     => (significand, taken)
  | c :: s =>
    match Text.digitValue? c with
    | none   => (significand, taken)
    | some d =>
      if maxSignificand < 10 * significand + d then (significand, taken)
      else accumulate (10 * significand + d) (taken + 1) s

/-- The exponent that digits write, or the number of digits behind which it is beyond all doubles. -/
def exponentOf (e taken : Nat) : List Char → Except Nat Nat
  | []     => .ok e
  | c :: s =>
    match Text.digitValue? c with
    | none   => .ok e
    | some d => if maxExponent < 10 * e + d then .error (taken + 1) else exponentOf (10 * e + d) (taken + 1) s

def double (negative : Bool) (significand : Nat) (exponent : Int) : Read Number :=
  match Double.ofDecimal? negative significand exponent with
  | some bits => return .double bits
  | none      => failHere .numberOutOfRange

/-- Steps over so many characters. -/
def skipMany : Nat → Read Unit
  | 0     => pure ()
  | n + 1 => do { skip; skipMany n }

/-- Whether the sign in front of an exponent is a minus. -/
def exponentSign : Read Bool := do
  match ← peek? with
  | some '+' => do { skip; return false }
  | some '-' => do { skip; return true }
  | _        => return false

/-- The exponent behind `e`, applied to a significand with an exponent of its own. -/
def scaled (negative : Bool) (significand : Nat) (exponent : Int) : Read Number := do
  let down ← exponentSign
  match ← peek? with
  | none   => failHere .endInValue
  | some c =>
    if isDigit c then
      match exponentOf 0 0 (← ahead isDigit) with
      | .error n =>
        -- an exponent beyond all doubles: zero, or too large
        if significand ≠ 0 && !down then do { skipMany n; failHere .numberOutOfRange }
        else do
          let _ ← takeWhile isDigit
          double negative 0 0
      | .ok e    => do
        let _ ← takeWhile isDigit
        double negative significand (if down then exponent - e else exponent + e)
    else failAhead .invalidNumber

/-- The digits behind the point, and what follows them.  Digits that no longer fit the significand are passed over. -/
def fraction (negative : Bool) (significand : Nat) (exponent : Int) : Read Number := do
  let digits ← takeWhile isDigit
  let (significand, taken) := accumulate significand 0 digits
  match digits.isEmpty, ← peek? with
  | true,  none     => failAhead .endInValue
  | true,  some _   => failAhead .invalidNumber
  | false, some 'e' => do { skip; scaled negative significand (exponent - taken) }
  | false, some 'E' => do { skip; scaled negative significand (exponent - taken) }
  | false, _        => double negative significand (exponent - taken)

/-- A whole number that fits 64 bits, or the double nearest to it. -/
def whole (negative : Bool) (significand : Nat) : Read Number :=
  if !negative then return .integer significand
  else if significand = 0 ∨ maxMagnitude < significand then double true significand 0
  else return .integer (-significand)

/-- What follows the whole part of a number, of which so many digits were passed over. -/
def behindWhole (negative : Bool) (significand passed : Nat) : Read Number := do
  match ← peek? with
  | some '.' => do { skip; fraction negative significand passed }
  | some 'e' => do { skip; scaled negative significand passed }
  | some 'E' => do { skip; scaled negative significand passed }
  | _        => if passed = 0 then whole negative significand else double negative significand passed

/-- A number behind its sign.  A leading zero stands alone. -/
def unsigned (negative : Bool) : Read Number := do
  match ← peek? with
  | none     => failHere .endInValue
  | some '0' => do
    skip
    if (← ahead isDigit).isEmpty then behindWhole negative 0 0 else failAhead .invalidNumber
  | some c   =>
    if isDigit c then do
      let digits ← takeWhile isDigit
      let (significand, taken) := accumulate 0 0 digits
      behindWhole negative significand (digits.length - taken)
    else failAhead .invalidNumber

/-! ## Strings -/

/-- Four hexadecimal digits as a number. -/
def hex4 : Read Nat := fun c =>
  let wrong : EStateM.Result Fault Cursor Nat :=
    if (String.ofList (c.rest.take 4)).utf8ByteSize < 4 then
      .error ⟨.endInString, some (Cursor.positionBehind c.position c.rest)⟩ c
    else .error ⟨.invalidEscape, some (Cursor.positionIn 4 c.position c.rest)⟩ c
  match c.rest with
  | a :: b :: d :: e :: s =>
    match Hex.digitValue? a, Hex.digitValue? b, Hex.digitValue? d, Hex.digitValue? e with
    | some w, some x, some y, some z => .ok (((w * 16 + x) * 16 + y) * 16 + z) ⟨s, Cursor.positionIn 4 c.position c.rest⟩
    | _, _, _, _ => wrong
  | _ => wrong

/-- A character that has to stand between the escapes of two surrogates. -/
def joint (expected : Char) : Read Unit := do
  match ← peek? with
  | none   => failHere .endInString
  | some c => if c = expected then skip else failAhead .unpairedSurrogate

/-- The character of a numbered escape behind `\u`.  Two escapes that are surrogates of one character give that character; a
surrogate alone gives none. -/
def unicodeEscape : Read Char := do
  let n ← hex4
  if 0xDC00 ≤ n ∧ n < 0xE000 then failHere .loneSurrogate
  else if 0xD800 ≤ n ∧ n < 0xDC00 then
    joint '\\'
    joint 'u'
    let m ← hex4
    if 0xDC00 ≤ m ∧ m < 0xE000 then return Char.ofNat (0x10000 + (n - 0xD800) * 0x400 + (m - 0xDC00))
    else failHere .loneSurrogate
  else return Char.ofNat n

/-- The characters that a letter behind a backslash stands for. -/
def escapeLetters : List (Char × Char) :=
  [('"', '"'), ('\\', '\\'), ('/', '/'), ('b', Char.ofNat 0x08), ('f', Char.ofNat 0x0C), ('n', '\n'), ('r', '\r'),
    ('t', '\t')]

/-- The character of an escape behind the backslash. -/
def escape : Read Char := do
  match ← peek? with
  | none     => failHere .endInString
  | some 'u' => do { skip; unicodeEscape }
  | some c   =>
    match escapeLetters.lookup c with
    | some x => do { skip; return x }
    | none   => failAhead .invalidEscape

/-- The characters of a string up to its closing quote, in at most so many steps. -/
def stringFrom : Nat → Read (List Char)
  | 0         => failHere .endInString
  | steps + 1 => do
    match ← peek? with
    | none      => failHere .endInString
    | some '"'  => do { skip; return [] }
    | some '\\' => do
      skip
      let x ← escape
      return x :: (← stringFrom steps)
    | some c    =>
      if c.toNat < 0x20 then failAhead .controlCharacter
      else do
        skip
        return c :: (← stringFrom steps)

/-- A string in front of its opening quote. -/
def string : Read String := do
  skip
  return String.ofList (← fun c => stringFrom (c.rest.length + 1) c)

/-! ## Values -/

/-- A member of an object. -/
def member {α : Type} (value : Read α) : Read (String × α) := do
  let key ← string
  colon
  return (key, ← value)

/-- The members of an object up to its end, at most so many. -/
def membersFrom {α : Type} (value : Read α) : Nat → Bool → Read (List (String × α))
  | 0,         _     => failAhead .endInObject
  | steps + 1, first => do
    if ← hasMember first then
      let m ← member value
      return m :: (← membersFrom value steps false)
    else
      return []

/-- The members of an object up to its end. -/
def members {α : Type} (value : Read α) : Read (List (String × α)) := fun c =>
  membersFrom value (c.rest.length + 1) true c

/-- A value, with a reader for what lists and objects hold, if they are still allowed. -/
def valueWith (inner : Option (Read Json)) : Read Json := do
  match ← next? with
  | none        => failAhead .endInValue
  | some 'n'    => do { skip; word "ull".toList; return .null }
  | some 't'    => do { skip; word "rue".toList; return .bool true }
  | some 'f'    => do { skip; word "alse".toList; return .bool false }
  | some '"'    => return .string (← string)
  | some '-'    => do { skip; return .number (← unsigned true) }
  | some '['    =>
    match inner with
    | none   => failAhead .tooDeep
    | some r => return .array (← enclosed endList (items r))
  | some '\x7b' =>
    match inner with
    | none   => failAhead .tooDeep
    | some r => return .object (← enclosed endObject (members r))
  | some c      => if isDigit c then return .number (← unsigned false) else failAhead .expectedValue

/-- A value whose lists and objects nest at most so deep. -/
def value : Nat → Read Json
  | 0         => valueWith none
  | depth + 1 => valueWith (some (value depth))

end Read

/-- How deep lists and objects may nest. -/
def maxDepth : Nat := 127

/-- The value that a text writes. -/
def ofText (text : String) : Except Fault Json := readAll (Read.value maxDepth) text

end Json
end CallPlan
