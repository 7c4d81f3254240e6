import CallPlan.Abi.AbiType.Basic
import CallPlan.Bytes.Keccak
/-!
# Functions

A function has a name and typed parameters in and out.  Its canonical signature, the name and the input types, is what it is
called by; the first four bytes of its hash are the selector.
-/
namespace CallPlan

structure Param where
  name : String
  kind : AbiType
deriving DecidableEq

structure Function where
  name : String
  inputs : List Param
  outputs : List Param
deriving DecidableEq

namespace Function

def inputTypes (f : Function) : List AbiType := f.inputs.map Param.kind

def outputTypes (f : Function) : List AbiType := f.outputs.map Param.kind

def signatureChars (f : Function) : List Char :=
  f.name.toList ++ '(' :: Text.joinWith [','] (AbiType.charsAll f.inputTypes) ++ [')']

/-- The canonical signature: the name and the input types. -/
def signature (f : Function) : String := String.ofList f.signatureChars

def selector (f : Function) : Selector := selectorOf f.signature

end Function
end CallPlan
