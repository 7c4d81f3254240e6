import CallPlan.Bytes.Hex
/-!
# What can be wrong with a type, a value or a signature

Each constructor is one cause, and `AbiError.message` is its wording.
-/
namespace CallPlan

inductive AbiError where
  /-- The text, or the width of an integer type, is no type. -/
  | invalidType (text : String)
  | invalidAddress (text : String)
  | invalidHex (text : String) (fault : HexFault)
  /-- The text is no function fragment. -/
  | invalidSignature (text : String)
  /-- A value of one kind stands where another type is declared. -/
  | typeMismatch (expected found : String)
  /-- The value is of the right kind and too large or too long for the type. -/
  | outOfRange (expected : String)
  /-- The type promises an offset word in front of the value, and the value's encoding is too short to hold one. -/
  | noHeadWord (expected : String)
deriving DecidableEq

namespace AbiError

def message : AbiError → String
  | .invalidType t         => "invalid type: `" ++ t ++ "`"
  | .invalidAddress t      => "invalid address: `" ++ t ++ "`"
  | .invalidHex t e        => "invalid hex: `" ++ t ++ "`: " ++ e.message
  | .invalidSignature t    => "invalid signature: `" ++ t ++ "`"
  | .typeMismatch ty found => "cannot encode " ++ found ++ " as " ++ ty
  | .outOfRange ty         => "value out of range for " ++ ty
  | .noHeadWord ty         => "no head word to drop from a value of " ++ ty

end AbiError

/-- The bytes of a hexadecimal text. -/
def ofHex (s : String) : Except AbiError Bytes :=
  match Hex.read s.toList with
  | .ok bs   => .ok bs
  | .error e => .error (.invalidHex s e)

end CallPlan
