import CallPlan.Files.Path
import CallPlan.Interface.Contract
import CallPlan.Plan.Slots
import CallPlan.Script.Argument
import CallPlan.Script.Basic
/-!
# From script to program

Building binds the contracts of a script and then adds its commands, in order, to an empty planner.  Files are handed in as a
function from path to text, so that building itself touches no disk.
-/
namespace CallPlan

/-- The reader of the files that a script names. -/
abbrev ReadFile := String → Except FileError String

namespace AbiSource

/-- The interface that a source describes.  Entries that are all texts are fragments. -/
def load (read : ReadFile) (base : String) : AbiSource → Except Failure Interface
  | .path p    =>
    let full := PathText.join base p
    match read full with
    | .error e  => .error ⟨[.readingInterface full], .file e⟩
    | .ok text =>
      match Interface.ofJsonText text with
      | .error e => .error ⟨[.parsingInterface full], .contract e⟩
      | .ok i    => .ok i
  | .inline js =>
    let loaded := if js.all Json.isText then Interface.ofFragments (js.filterMap Json.text?)
      else Interface.ofJson (.array js)
    match loaded with
    | .error e => .error (.ofCause (.contract e))
    | .ok i    => .ok i

end AbiSource

/-- A planner in the making, and the results that ids name. -/
structure Draft where
  planner : Planner
  handles : List (String × Handle)

namespace Script

/-- Binds the contracts in order. -/
def bind (read : ReadFile) (base : String) : List (String × ContractSpec) → Except Failure (List (String × Contract))
  | []            => .ok []
  | (n, spec) :: cs =>
    match inContext (.contract n) (spec.abi.load read base) with
    | .error f => .error f
    | .ok i    =>
      match bind read base cs with
      | .error f   => .error f
      | .ok bound => .ok ((n, ⟨spec.address, i⟩) :: bound)

/-- What an argument stands for: the result that an id names, the whole table, or a concrete value. -/
def resolveArg (handles : List (String × Handle)) (ty : AbiType) (j : Json) : Except Cause Arg :=
  let concrete : Except Cause Arg := (Token.ofJson ty j).map .token
  match j with
  | .object ms =>
    match Json.lastValue? "ref" ms with
    | some (.string id) =>
      match handles.lookup id with
      | some h => .ok (.value (.result h))
      | none   => .error (.request (.unknownRef id))
    | some _ => .error (.request .refIsNoText)
    | none   =>
      match Json.lastValue? "state" ms with
      | some (.bool true) => .ok (.value .state)
      | _                 => concrete
  | _ => concrete

/-- The arguments from a position on. -/
def resolveArgs (handles : List (String × Handle)) (index : Nat) : List Param → List Json → Except Failure (List Arg)
  | p :: ps, j :: js =>
    match resolveArg handles p.kind j with
    | .error c => .error ⟨[.argument index], c⟩
    | .ok a    =>
      match resolveArgs handles (index + 1) ps js with
      | .error f => .error f
      | .ok as   => .ok (a :: as)
  | _,       _       => .ok []

/-- The call that a command makes. -/
def callOf (contracts : List (String × Contract)) (handles : List (String × Handle)) (c : CommandSpec) :
    Except Failure Call :=
  match Text.splitFirst? '.' c.call.toList with
  | none             => .error (.ofCause (.request .malformedCall))
  | some (name, key) =>
    match contracts.lookup (String.ofList name) with
    | none          => .error (.ofCause (.request (.unknownContract (String.ofList name))))
    | some contract =>
      match contract.function (String.ofList key) with
      | .error e => .error (.ofCause (.contract e))
      | .ok b    =>
        let inputs := b.function.inputs
        if c.args.length ≠ inputs.length then
          .error (.ofCause (.contract (.arity b.signature inputs.length c.args.length)))
        else
          match resolveArgs handles 0 inputs c.args with
          | .error f => .error f
          | .ok args =>
            match b.call args with
            | .error e => .error (.ofCause (.contract e))
            | .ok call => .ok call

/-- Names the result of the command that was just added, if it has an id. -/
def nameResult (handles : List (String × Handle)) (handle : Option Handle) :
    Option String → Except Failure (List (String × Handle))
  | none    => .ok handles
  | some id =>
    match handle with
    | none   => .error (.ofCause (.request (.noSingleOutput id)))
    | some h =>
      if (handles.lookup id).isSome then .error (.ofCause (.request (.duplicateId id)))
      else .ok (handles ++ [(id, h)])

/-- Adds a command. -/
def addCommand (contracts : List (String × Contract)) (d : Draft) (c : CommandSpec) : Except Failure Draft :=
  match callOf contracts d.handles c with
  | .error f => .error f
  | .ok call =>
    if c.replaceState then
      if c.id.isSome then .error (.ofCause (.request .namedReplacement))
      else
        match d.planner.replaceState call with
        | (.error e, _) => .error (.ofCause (.plan e))
        | (.ok _, p)    => .ok ⟨p, d.handles⟩
    else
      match d.planner.add call with
      | (.error e, _)   => .error (.ofCause (.plan e))
      | (.ok handle, p) =>
        match nameResult d.handles handle c.id with
        | .error f      => .error f
        | .ok handles => .ok ⟨p, handles⟩

/-- Adds the commands from a position on. -/
def addCommands (contracts : List (String × Contract)) (index : Nat) (d : Draft) :
    List CommandSpec → Except Failure Draft
  | []      => .ok d
  | c :: cs =>
    match inContext (.command index c.call) (addCommand contracts d c) with
    | .error f => .error f
    | .ok d'   => addCommands contracts (index + 1) d' cs

/-- The planner with the commands of a script. -/
def build (read : ReadFile) (base : String) (s : Script) : Except Failure Planner :=
  match bind read base s.contracts with
  | .error f      => .error f
  | .ok contracts =>
    match addCommands contracts 0 ⟨.empty 0, []⟩ s.commands with
    | .error f => .error f
    | .ok d    => .ok d.planner

/-- The checked program of a planner. -/
def programOf (p : Planner) : Except Failure Program :=
  match p.plan with
  | .error e    => .error ⟨[.planning], .plan e⟩
  | .ok program =>
    match program.validate with
    | .error e => .error (.ofCause (.plan e))
    | .ok ()   => .ok program

/-- The program of a script. -/
def compile (read : ReadFile) (base : String) (s : Script) : Except Failure Program :=
  match s.build read base with
  | .error f => .error f
  | .ok p    => programOf p

end Script

/-- The program of a script's text. -/
def planScript (read : ReadFile) (base text : String) : Except Failure Program :=
  match Script.ofText text with
  | .error f => .error f
  | .ok s    => s.compile read base

end CallPlan
