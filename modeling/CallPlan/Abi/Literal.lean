import CallPlan.Abi.Layout
import CallPlan.Abi.Token.Check
/-!
# Literals

The bytes of a value as they lie in a slot: the encoding of the value alone, without the offset word in front when the type
asks for one.  A type can ask for an offset that the value's encoding does not have (`string[0]` has no bytes at all), so
the drop itself can fail.
-/
namespace CallPlan

/-- Checks a value against a type and gives the bytes that its slot holds. -/
def encodeLiteral (ty : AbiType) (t : Token) : Except AbiError Bytes :=
  match t.check ty with
  | .error e => .error e
  | .ok ()   =>
    let bs := encode [t]
    if ty.usesOffset then
      if bs.length < 32 then .error (.noHeadWord ty.text) else .ok (bs.drop 32)
    else .ok bs

end CallPlan
