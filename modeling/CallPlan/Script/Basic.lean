import CallPlan.Abi.Address
import CallPlan.Json.Schema
import CallPlan.Script.Failure
/-!
# Scripts

A script names contracts, each an address and an interface, and lists commands, each a call of a contract's function with
arguments.  A command may carry an id, by which later commands refer to its result.
-/
namespace CallPlan

/-- Where an interface is described. -/
inductive AbiSource where
  /-- In a file, by a path seen from the script. -/
  | path (path : String)
  /-- In the script itself, as entries or as fragments. -/
  | inline (items : List Json)

structure ContractSpec where
  address : Address
  abi : AbiSource

structure CommandSpec where
  id : Option String
  call : String
  args : List Json
  replaceState : Bool

structure Script where
  /-- The contracts by name, in the order in which the names first occur. -/
  contracts : List (String × ContractSpec)
  commands : List CommandSpec

/-- Puts a value under a name: in the place of an earlier one, or at the end. -/
def putNamed {α : Type} (name : String) (a : α) : List (String × α) → List (String × α)
  | []          => [(name, a)]
  | (n, b) :: l => if n = name then (n, a) :: l else (n, b) :: putNamed name a l

open Json (Read maxDepth)

/-- An address, written as a text. -/
def Address.reader : Read Address := do
  match Address.ofText (← Read.text) with
  | .ok a    => return a
  | .error e => Read.fail (.refused e.message)

/-- A source three levels deep in a script. -/
def AbiSource.reader : Read AbiSource := do
  match ← Read.value (maxDepth - 3) with
  | .string p => return .path p
  | .array js => return .inline js
  | _         => Read.fail (.refused "data did not match any variant of untagged enum AbiSource")

def ContractSpec.reader : Read ContractSpec :=
  Read.record "ContractSpec"
    [⟨"address", false, fun s => do return { s with address := ← Address.reader }⟩,
      ⟨"abi", false, fun s => do return { s with abi := ← AbiSource.reader }⟩]
    ⟨Block.fill 20 0, .inline []⟩

def CommandSpec.reader : Read CommandSpec :=
  Read.record "CommandSpec"
    [⟨"id", true, fun s => do return { s with id := ← Read.textOrNull }⟩,
      ⟨"call", false, fun s => do return { s with call := ← Read.text }⟩,
      ⟨"args", true, fun s => do return { s with args := ← Read.list (Read.value (maxDepth - 4)) }⟩,
      ⟨"replace_state", true, fun s => do return { s with replaceState := ← Read.flag }⟩]
    ⟨none, "", [], false⟩

namespace Script

/-- Contracts by name; of two with one name the later takes the place of the earlier. -/
def byName (cs : List (String × ContractSpec)) : List (String × ContractSpec) :=
  cs.foldl (fun named (n, c) => putNamed n c named) []

def reader : Read Script :=
  Read.record "Script"
    [⟨"contracts", false, fun s => do return { s with contracts := byName (← Read.table ContractSpec.reader) }⟩,
      ⟨"commands", false, fun s => do return { s with commands := ← Read.list CommandSpec.reader }⟩]
    ⟨[], []⟩

/-- The script that a text writes. -/
def ofText (text : String) : Except Failure Script :=
  match Json.readAll reader text with
  | .ok s    => .ok s
  | .error f => .error ⟨[.script], .malformedJson f⟩

/-- The paths of the files that describe interfaces. -/
def interfacePaths (s : Script) : List String :=
  s.contracts.filterMap fun (_, c) =>
    match c.abi with
    | .path p   => some p
    | .inline _ => none

end Script
end CallPlan
