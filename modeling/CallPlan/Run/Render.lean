import CallPlan.Json.Printer
import CallPlan.Plan.Listing
import CallPlan.Abi.Function.Reader
import CallPlan.Script.Failure
/-!
# What a run prints

A program is printed as JSON or as a listing, a selector with its canonical signature on a line.
-/
namespace CallPlan

inductive Format where
  | json
  | listing
deriving DecidableEq

/-- A program in a format, with a newline at the end. -/
def Program.render (p : Program) : Format → String
  | .json    => Json.textListsDocument [("commands", p.commandTexts), ("state", p.stateTexts)]
  | .listing => p.listing

/-- The line of one function: its selector, two blanks, its signature. -/
def Function.selectorLine (f : Function) : String := toHex f.selector.bytes ++ "  " ++ f.signature ++ "\n"

/-- The lines of a list of fragments. -/
def selectorLines : List String → Except Failure String
  | []      => .ok ""
  | s :: ss =>
    match Function.ofText s with
    | .error e => .error ⟨[.signature s], .abi e⟩
    | .ok f    =>
      match selectorLines ss with
      | .error e   => .error e
      | .ok lines => .ok (f.selectorLine ++ lines)

/-- The selectors of a list of fragments, of which there must be one. -/
def selectors (ss : List String) : Except Failure String :=
  if ss.isEmpty then .error (.ofCause (.request .noSignatures)) else selectorLines ss

end CallPlan
