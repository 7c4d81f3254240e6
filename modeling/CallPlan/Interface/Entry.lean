import CallPlan.Abi.AbiType.Reader
import CallPlan.Abi.Function.Basic
import CallPlan.Interface.Error
import CallPlan.Json.Record
/-!
# Entries of a JSON interface

An interface in JSON is a list of entries, each with a kind, a name, and parameters in and out.  A parameter whose type
starts with `tuple` lists its components; what follows the word are array dimensions.
-/
namespace CallPlan

/-- A parameter as it is described: a name, a type text, and the components of a tuple. -/
inductive EntryParam where
  | mk (name type : String) (components : List EntryParam)

structure AbiEntry where
  kind : String
  name : String
  inputs : List EntryParam
  outputs : List EntryParam

namespace EntryParam

def name : EntryParam → String
  | .mk n _ _ => n

def fieldNames : List String := ["name", "type", "components"]

def ofJson (j : Json) : Json.Decoded EntryParam :=
  match _h : Json.fields? fieldNames j with
  | some [name, type, components] =>
    let params : Json.Decoded (List EntryParam) :=
      match _h' : Json.itemsOrNone components with
      | .error f  => .error f
      | .ok items => items.attach.mapM fun ⟨i, _⟩ => ofJson i
    let text : Json.Decoded String :=
      match type with
      | some t => t.textOf
      | none   => Json.lacks "RawParam" fieldNames 1 j
    if j.isObject then do
      let cs ← params
      return .mk (← Json.textOr "" name) (← text) cs
    else do
      let n ← Json.textOr "" name
      let t ← text
      let cs ← params
      Json.checkSurplus fieldNames j
      return .mk n t cs
  | _ => Json.refuse (Json.wrongType j (Json.recordKind "RawParam"))
termination_by sizeOf j
decreasing_by exact Json.sizeOf_lt_of_mem_items _h (by simp) _h' ‹i ∈ items›

mutual
/-- The type text of a parameter, with the components of a tuple written out. -/
def typeChars : EntryParam → List Char
  | .mk _ t cs =>
    match Text.dropWord? "tuple".toList t.toList with
    | some dimensions => '(' :: Text.joinWith [','] (typesChars cs) ++ ')' :: dimensions
    | none            => t.toList

def typesChars : List EntryParam → List (List Char)
  | []      => []
  | p :: ps => p.typeChars :: typesChars ps
end

def toParam (p : EntryParam) : Except ContractError Param :=
  match AbiType.read (Text.trim p.typeChars) with
  | .ok ty   => .ok ⟨p.name, ty⟩
  | .error e => .error (.abi e)

end EntryParam

namespace AbiEntry

def fieldNames : List String := ["type", "name", "inputs", "outputs"]

/-- The parameters that a field lists. -/
def paramsOf (f : Option Json) : Json.Decoded (List EntryParam) := do
  (← Json.itemsOrNone f).mapM EntryParam.ofJson

def ofJson (j : Json) : Json.Decoded AbiEntry :=
  match Json.fields? fieldNames j with
  | some [kind, name, inputs, outputs] =>
    let kindText := Json.textOr "function" kind
    let nameText := Json.textOr "" name
    if j.isObject then do
      let ins ← paramsOf inputs
      let n ← nameText
      let outs ← paramsOf outputs
      return ⟨← kindText, n, ins, outs⟩
    else do
      let k ← kindText
      let n ← nameText
      let ins ← paramsOf inputs
      let outs ← paramsOf outputs
      Json.checkSurplus fieldNames j
      return ⟨k, n, ins, outs⟩
  | _ => Json.refuse (Json.wrongType j (Json.recordKind "RawEntry"))

def toFunction (e : AbiEntry) : Except ContractError Function := do
  if e.name.isEmpty then
    throw (.invalidInterface .namelessFunction)
  let inputs ← e.inputs.mapM EntryParam.toParam
  let outputs ← e.outputs.mapM EntryParam.toParam
  return ⟨e.name, inputs, outputs⟩

end AbiEntry
end CallPlan
