import CallPlan.Abi.AbiType.Basic
import CallPlan.Abi.Token.Basic
import CallPlan.Json.Printer
import CallPlan.Json.Reader
import CallPlan.Script.Failure
/-!
# Values from JSON

A concrete argument is a JSON value, read at the declared type.  Integers are numbers, or texts in decimal or behind `0x`;
addresses and byte strings are hexadecimal texts; arrays and tuples are arrays.
-/
namespace CallPlan
namespace Word

/-- At most 32 bytes, behind zeros that fill the word. -/
def ofShort? (bs : Bytes) : Option Word :=
  if h : bs.length ≤ 32 then
    some ⟨List.replicate (32 - bs.length) 0 ++ bs, by simp only [List.length_append, List.length_replicate]; omega⟩
  else none

/-- A number in hexadecimal digits, of which there may be an odd number.  The digits are read as any hexadecimal text, so
that they may carry a marker of their own. -/
def readHexDigits? (ds : List Char) : Option Word :=
  match Hex.read (if Hex.width ds % 2 = 1 then '0' :: ds else ds) with
  | .error _ => none
  | .ok bs   => if bs.isEmpty then none else ofShort? bs

/-- A number in decimal digits, taken in one by one as long as it stays below `2 ^ 256`. -/
def readDecimal? (ds : List Char) : Option Word :=
  if ds.isEmpty || !ds.all Char.isDigit then none else ds.foldlM (fun w c => w.pushDigit? (c.toNat - 48)) zero

/-- A number below `2 ^ 256` in decimal, or behind `0x` or `0X` in hexadecimal. -/
def readUint? (s : List Char) : Option Word :=
  match Text.trim s with
  | '0' :: 'x' :: ds => readHexDigits? ds
  | '0' :: 'X' :: ds => readHexDigits? ds
  | ds               => readDecimal? ds

/-- An integer from `-2 ^ 255` to below `2 ^ 255`: a number, or a minus sign and a number.  A negative integer has its first
bit set, and any other has not. -/
def readInt? (s : List Char) : Option Word :=
  match Text.trim s with
  | '-' :: t =>
    match readUint? t with
    | some w =>
      if w.bytes.all (· == 0) then some w
      else if w.negate.topBit then some w.negate
      else none
    | none   => none
  | t        =>
    match readUint? t with
    | some w => if w.topBit then none else some w
    | none   => none

end Word

namespace Token

/-- The refusal of a JSON value at a type. -/
def refusal (ty : AbiType) (j : Json) : Cause := .request (.cannotUse j.render ty.text)

/-- What a text gives, or the refusal of the JSON value when it is no text. -/
def ofJsonText {α : Type} (ty : AbiType) (j : Json) (f : String → Except Cause α) : Except Cause α :=
  match j.text? with
  | some s => f s
  | none   => .error (refusal ty j)

def uintOfJson? : Json → Option Token
  | .number (.integer (.ofNat n)) => some (.ofNat n)
  | .string s                     => (Word.readUint? s.toList).map .uint
  | _                             => none

def intOfJson? : Json → Option Token
  | .number (.integer i) => if i < Int.ofNat Json.maxMagnitude then some (.ofInt i) else none
  | .string s            => (Word.readInt? s.toList).map .int
  | _                    => none

def bytesOfText (s : String) : Except Cause Bytes :=
  match ofHex s with
  | .ok bs   => .ok bs
  | .error e => .error (.abi e)

def addressOfText (s : String) : Except Cause Token :=
  match Address.ofText s with
  | .ok a    => .ok (.address a)
  | .error e => .error (.abi e)

mutual
/-- The value that a JSON value stands for at a type. -/
def ofJson : AbiType → Json → Except Cause Token
  | .address, j         => ofJsonText .address j addressOfText
  | .bool, j            =>
    match j.bool? with
    | some b => .ok (.bool b)
    | none   => .error (refusal .bool j)
  | .uint n, j          =>
    match uintOfJson? j with
    | some t => .ok t
    | none   => .error (refusal (.uint n) j)
  | .int n, j           =>
    match intOfJson? j with
    | some t => .ok t
    | none   => .error (refusal (.int n) j)
  | .fixedBytes n, j    => ofJsonText (.fixedBytes n) j fun s => (bytesOfText s).map .fixedBytes
  | .bytes, j           => ofJsonText .bytes j fun s => (bytesOfText s).map .bytes
  | .string, j          => ofJsonText .string j fun s => .ok (.string s)
  | .array ty, j        =>
    match j.items? with
    | some js => (js.mapM fun i => ofJson ty i).map .array
    | none    => .error (refusal (.array ty) j)
  | .fixedArray ty n, j =>
    match j.items? with
    | some js =>
      if js.length = n then (js.mapM fun i => ofJson ty i).map .fixedArray
      else .error (refusal (.fixedArray ty n) j)
    | none    => .error (refusal (.fixedArray ty n) j)
  | .tuple tys, j       =>
    match j.items? with
    | some js =>
      if js.length = tys.length then (ofJsonEach tys js).map .tuple
      else .error (refusal (.tuple tys) j)
    | none    => .error (refusal (.tuple tys) j)

/-- The values of JSON values at the types of the same position. -/
def ofJsonEach : List AbiType → List Json → Except Cause (List Token)
  | ty :: tys, j :: js =>
    match ofJson ty j with
    | .error e => .error e
    | .ok t    =>
      match ofJsonEach tys js with
      | .error e => .error e
      | .ok ts   => .ok (t :: ts)
  | _,         _       => .ok []
end

end Token
end CallPlan
