import CallPlan.Files.FileSystem
import CallPlan.Interface.Error
import CallPlan.Plan.Error
/-!
# Failures of a run

A failure is a cause and the contexts that it arose in, outermost first.  The wording of a run's own messages is French, that
of the parts it is built from English.
-/
namespace CallPlan

/-- What is wrong with a request itself. -/
inductive RequestFault where
  /-- A call is not written as a contract and a function with a dot between them. -/
  | malformedCall
  | unknownContract (name : String)
  | refIsNoText
  | unknownRef (id : String)
  /-- A JSON value cannot be taken as a value of a type. -/
  | cannotUse (json type : String)
  /-- A command that replaces the table is given an id. -/
  | namedReplacement
  /-- A command is given an id and has no single output. -/
  | noSingleOutput (id : String)
  | duplicateId (id : String)
  | noSignatures
  | outputWithoutName (path : String)
deriving DecidableEq

def RequestFault.message : RequestFault → String
  | .malformedCall       => "`call` must look like `contract.function`"
  | .unknownContract n   => "unknown contract `" ++ n ++ "`"
  | .refIsNoText         => "`ref` must be a string"
  | .unknownRef id       => "unknown ref `" ++ id ++ "`"
  | .cannotUse j ty      => "cannot use " ++ j ++ " as " ++ ty
  | .namedReplacement    => "a state-replacing command has no return value to name"
  | .noSingleOutput id   => "`" ++ id ++ "` names a call without a single output"
  | .duplicateId id      => "duplicate id `" ++ id ++ "`"
  | .noSignatures        => "aucune signature fournie"
  | .outputWithoutName p => "chemin de sortie sans nom de fichier: " ++ p

inductive Cause where
  | abi (error : AbiError)
  | plan (error : PlanError)
  | contract (error : ContractError)
  | malformedJson (fault : Json.Fault)
  | file (error : FileError)
  | request (fault : RequestFault)
deriving DecidableEq

/-- What was going on when a cause arose. -/
inductive Context where
  | run
  | readingScript
  | openingScript (path : String)
  | script
  | contract (name : String)
  | readingInterface (path : String)
  | parsingInterface (path : String)
  | command (index : Nat) (call : String)
  | argument (index : Nat)
  | planning
  | writing (path : String)
  | signature (text : String)
deriving DecidableEq

open Text (decimalString)

def Context.message : Context → String
  | .run                => "échec d'exécution de la commande"
  | .readingScript      => "lecture du script"
  | .openingScript p    => "ouverture: " ++ p
  | .script             => "invalid plan script"
  | .contract n         => "contract `" ++ n ++ "`"
  | .readingInterface p => "reading " ++ p
  | .parsingInterface p => "parsing " ++ p
  | .command i c        => "command " ++ decimalString i ++ " (`" ++ c ++ "`)"
  | .argument i         => "argument " ++ decimalString i
  | .planning           => "échec de planification"
  | .writing p          => "écriture de " ++ p
  | .signature s        => "signature `" ++ s ++ "`"

/-- How the causes are worded that come from outside: JSON that cannot be read, and files. -/
structure Wording where
  json : Json.Fault → String
  file : FileError → String

/-- The wording for a user at a terminal. -/
def Wording.plain : Wording := ⟨Json.Fault.message, FileError.message⟩

/-- The texts of a cause: its own, and that of what caused it in turn. -/
def Cause.messages (w : Wording) : Cause → List String
  | .abi e                                        => [e.message]
  | .plan e                                       => [e.message]
  | .contract (.invalidArgument function index e) =>
    [ContractError.message w.json (.invalidArgument function index e), e.message]
  | .contract (.malformedJson f)                  => [ContractError.message w.json (.malformedJson f), w.json f]
  | .contract e                                   => [e.message w.json]
  | .malformedJson f                              => [w.json f]
  | .file e                                       => [w.file e]
  | .request f                                    => [f.message]

structure Failure where
  contexts : List Context
  cause : Cause
deriving DecidableEq

namespace Failure

def ofCause (c : Cause) : Failure := ⟨[], c⟩

/-- The failure seen from one context further out. -/
def within (c : Context) (f : Failure) : Failure := ⟨c :: f.contexts, f.cause⟩

/-- All texts of a failure from the outside in, with colons between them. -/
def message (w : Wording) (f : Failure) : String :=
  String.ofList
    (Text.joinWith ": ".toList ((f.contexts.map Context.message ++ f.cause.messages w).map String.toList))

/-- Whether the run broke off where a head word was missing. -/
def isAbort (f : Failure) : Bool :=
  match f.cause with
  | .abi (.noHeadWord _)                            => true
  | .contract (.invalidArgument _ _ (.noHeadWord _)) => true
  | _                                               => false

end Failure

/-- A result seen from one context further out. -/
def inContext {α : Type} (c : Context) : Except Failure α → Except Failure α
  | .ok a    => .ok a
  | .error f => .error (f.within c)

end CallPlan
