import CallPlan.Abi.Function.Reader
import CallPlan.Interface.Entry
import CallPlan.Json.Reader
import CallPlan.Table
/-!
# Interfaces

The functions that a contract offers, in the order of their declaration, no two with the same signature.  They are kept in two
tables: every function under its signature, and under every name the signatures of the functions that have it.  A function is
found by its signature, however it is decorated, or by its bare name when no other function has that name.
-/
namespace CallPlan

structure Interface where
  bySignature : List (String × Function) := []
  byName : List (String × List String) := []
deriving DecidableEq

namespace Interface

def functions (i : Interface) : List Function := i.bySignature.map Prod.snd

def size (i : Interface) : Nat := i.bySignature.length

/-- Enters a function in both tables, unless its signature is taken. -/
def add (i : Interface) (f : Function) : Except ContractError Interface :=
  let s := f.signature
  if (i.bySignature.lookup s).isSome then .error (.duplicateSignature s)
  else .ok {
    byName := Table.alter f.name (fun ss => ss.getD [] ++ [s]) i.byName
    bySignature := Table.insert s f i.bySignature }

def addAll (i : Interface) : List Function → Except ContractError Interface
  | []      => .ok i
  | f :: fs =>
    match i.add f with
    | .error e => .error e
    | .ok i'   => addAll i' fs

/-- The interface of these functions, unless two have one signature. -/
def ofFunctions (fs : List Function) : Except ContractError Interface := addAll {} fs

/-- The functions among a list of entries. -/
def ofEntries (js : List Json) : Except ContractError Interface :=
  match js.mapM AbiEntry.ofJson with
  | .error f => .error (.malformedJson f)
  | .ok es   => do
    let fs ← (es.filter (·.kind = "function")).mapM AbiEntry.toFunction
    ofFunctions fs

/-- An interface in JSON: a list of entries, or an object that holds one under `abi`. -/
def ofJson : Json → Except ContractError Interface
  | .array js  => ofEntries js
  | .object ms =>
    match Json.lastValue? "abi" ms with
    | none   => .error (.invalidInterface .noAbiField)
    | some j =>
      match j.itemsOf with
      | .error f => .error (.malformedJson f)
      | .ok js   => ofEntries js
  | _          => .error (.invalidInterface .notAnInterface)

def ofJsonText (text : String) : Except ContractError Interface :=
  match Json.ofText text with
  | .error f => .error (.malformedJson f)
  | .ok j    => ofJson j

/-- How fragments start that declare no function. -/
def skippedStarts : List (List Char) :=
  ["event ".toList, "error ".toList, "constructor".toList, "fallback".toList, "receive".toList]

/-- Whether a trimmed fragment declares no function. -/
def isSkipped (s : List Char) : Bool := s.isEmpty || skippedStarts.any fun w => (Text.dropWord? w s).isSome

/-- The functions that fragments declare. -/
def readFragments : List String → Except ContractError (List Function)
  | []      => .ok []
  | s :: ss =>
    let t := Text.trim s.toList
    if isSkipped t then readFragments ss
    else
      match Function.ofText (String.ofList t) with
      | .error e => .error (.abi e)
      | .ok f    =>
        match readFragments ss with
        | .error e => .error e
        | .ok fs   => .ok (f :: fs)

/-- The interface that human-readable fragments declare. -/
def ofFragments (ss : List String) : Except ContractError Interface :=
  match readFragments ss with
  | .error e => .error e
  | .ok fs   => ofFunctions fs

/-- Finds a function by signature, which is brought to its canonical form, or by bare name. -/
def function (i : Interface) (key : String) : Except ContractError Function :=
  let k := String.ofList (Text.trim key.toList)
  if '(' ∈ k.toList then
    match Function.ofText k with
    | .error e => .error (.abi e)
    | .ok g    =>
      match i.bySignature.lookup g.signature with
      | some f => .ok f
      | none   => .error (.unknownFunction g.signature)
  else
    match i.byName.lookup k with
    | some [s]       =>
      match i.bySignature.lookup s with
      | some f => .ok f
      | none   => .error (.unknownFunction k)
    | some (s :: ss) => .error (.ambiguousName k (s :: ss))
    | _              => .error (.unknownFunction k)

/-- The names that need no signature, in the order of declaration. -/
def bareNames (i : Interface) : List String := (i.byName.filter (·.2.length = 1)).map Prod.fst

end Interface
end CallPlan
