import CallPlan.Abi.AbiType.Basic
import CallPlan.Abi.Token.Basic
/-!
# Checking a value against a type

A value fits a type when their kinds agree at every depth, integers lie in the declared width and byte strings have the
declared length.  Integer widths are checked on the bytes of the word: the leading bytes that a width leaves unused must be
fill, zero or the sign.
-/
namespace CallPlan
namespace Token

/-- The number of leading bytes that an integer of a width leaves unused, if there is such a width. -/
def unusedBytes? (bits : Nat) : Option Nat :=
  if bits = 0 ∨ 256 < bits ∨ bits % 8 ≠ 0 then none else some (32 - bits / 8)

/-- Whether the first `n` bytes of a word are all `b`. -/
def leadsWith (b : UInt8) (n : Nat) (w : Word) : Bool := (w.bytes.take n).all (· == b)

/-- Whether the byte at a position has its first bit set. -/
def signAt (n : Nat) (w : Word) : Bool := 0x80 ≤ (w.bytes.getD n 0).toNat

/-- Whether a number fits an unsigned width that leaves `n` bytes unused. -/
def natFitsUint (n : Nat) (w : Word) : Bool := leadsWith 0 n w

/-- Whether an integer fits an unsigned width. -/
def intFitsUint (n : Nat) (w : Word) : Bool := !w.topBit && leadsWith 0 n w

/-- Whether a number fits a signed width. -/
def natFitsInt (n : Nat) (w : Word) : Bool := leadsWith 0 n w && !signAt n w

/-- Whether an integer fits a signed width. -/
def intFitsInt (n : Nat) (w : Word) : Bool := leadsWith (if signAt n w then 0xFF else 0x00) n w

/-- Checks a width and then a word against it. -/
def checkWidth (ty : AbiType) (bits : Nat) (fits : Nat → Bool) : Except AbiError Unit :=
  match unusedBytes? bits with
  | none   => .error (.invalidType ty.text)
  | some n => if fits n then .ok () else .error (.outOfRange ty.text)

mutual
/-- Checks that a value fits a type. -/
def check : Token → AbiType → Except AbiError Unit
  | .address _,        .address         => .ok ()
  | .bool _,           .bool            => .ok ()
  | .bytes _,          .bytes           => .ok ()
  | .string _,         .string          => .ok ()
  | .uint w,           .uint bits       => checkWidth (.uint bits) bits (natFitsUint · w)
  | .int w,            .uint bits       => checkWidth (.uint bits) bits (intFitsUint · w)
  | .uint w,           .int bits        => checkWidth (.int bits) bits (natFitsInt · w)
  | .int w,            .int bits        => checkWidth (.int bits) bits (intFitsInt · w)
  | .fixedBytes bs,    .fixedBytes n    =>
    if bs.length = n then .ok () else .error (.outOfRange (AbiType.fixedBytes n).text)
  | .array items,      .array ty        => checkAll items ty
  | .fixedArray items, .fixedArray ty n =>
    if items.length = n then checkAll items ty
    else .error (.typeMismatch (AbiType.fixedArray ty n).text (Token.fixedArray items).kindName)
  | .tuple items,      .tuple tys       =>
    if items.length = tys.length then checkEach items tys
    else .error (.typeMismatch (AbiType.tuple tys).text (Token.tuple items).kindName)
  | t,                 ty               => .error (.typeMismatch ty.text t.kindName)

/-- Checks that all values fit one type; the first that does not gives the error. -/
def checkAll : List Token → AbiType → Except AbiError Unit
  | [],      _  => .ok ()
  | t :: ts, ty =>
    match t.check ty with
    | .ok ()   => checkAll ts ty
    | .error e => .error e

/-- Checks that values fit types of the same position. -/
def checkEach : List Token → List AbiType → Except AbiError Unit
  | t :: ts, ty :: tys =>
    match t.check ty with
    | .ok ()   => checkEach ts tys
    | .error e => .error e
  | _,       _         => .ok ()
end

end Token
end CallPlan
