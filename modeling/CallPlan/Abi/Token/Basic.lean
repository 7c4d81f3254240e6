import CallPlan.Abi.Address
/-!
# Values

A token is a concrete value.  Integers are kept as words, so every width up to 256 bits is one representation; whether the
word is meant as a number or in two's complement is the token's tag.
-/
namespace CallPlan

inductive Token where
  | address (value : Address)
  | bool (value : Bool)
  | uint (word : Word)
  | int (word : Word)
  | fixedBytes (value : Bytes)
  | bytes (value : Bytes)
  | string (value : String)
  | array (items : List Token)
  | fixedArray (items : List Token)
  | tuple (items : List Token)

namespace Token

/-- The kind of a value as messages name it. -/
def kindName : Token → String
  | .address _    => "address"
  | .bool _       => "bool"
  | .uint _       => "uint"
  | .int _        => "int"
  | .fixedBytes _ => "fixed bytes"
  | .bytes _      => "bytes"
  | .string _     => "string"
  | .array _      => "array"
  | .fixedArray _ => "fixed array"
  | .tuple _      => "tuple"

/-- The value of a number below `2 ^ 128`. -/
def ofNat (n : Nat) : Token := .uint (Word.extend 0x00 n)

/-- The value of an integer in `[-2 ^ 127, 2 ^ 127)`, its sign repeated in front. -/
def ofInt (i : Int) : Token :=
  .int (Word.extend (if i < 0 then 0xFF else 0x00) (i % Int.ofNat (Nat.pow 2 128)).toNat)

mutual
/-- Whether the value is reached through an offset word. -/
def usesOffset : Token → Bool
  | .bytes _ | .string _ | .array _    => true
  | .fixedArray items | .tuple items   => anyUsesOffset items
  | _                                  => false

def anyUsesOffset : List Token → Bool
  | []      => false
  | t :: ts => t.usesOffset || anyUsesOffset ts
end

end Token
end CallPlan
