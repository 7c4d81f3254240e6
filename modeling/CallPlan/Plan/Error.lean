import CallPlan.Text.Numeral
/-!
# Why a plan or a program is refused

`ProgramFault` says what makes a program unusable, `PlanError` why commands cannot be added or planned.
-/
namespace CallPlan

/-- The number of slots that an instruction can name. -/
def maxSlots : Nat := 126

/-- The number of operands that an instruction has room for. -/
def maxOperands : Nat := 7

inductive ProgramFault where
  | tooManySlots (count : Nat)
  /-- An operand stands behind an absent one. -/
  | operandAfterEnd (instruction position : Nat)
  | operandOutside (instruction slot size : Nat)
  | resultOutside (instruction slot size : Nat)
  /-- No slot was given to an argument. -/
  | operandWithoutSlot (command position : Nat)
deriving DecidableEq

inductive PlanError where
  /-- A command reads the result of one that does not come before it. -/
  | danglingReference (command target : Nat)
  /-- A command reads the result of another planner's command. -/
  | foreignReturn
  /-- A function that is to replace the table does not return exactly one `bytes[]`. -/
  | invalidStateReplacement (signature found : String)
  /-- The output of a command that replaces the table is read as well. -/
  | returnReplaceConflict (command consumer : Nat)
  | operandOverflow (command : Nat) (signature : String) (count : Nat)
  /-- All slots are taken, by a command's turn or, without one, by the literals alone. -/
  | slotOverflow (command : Option Nat)
  | corrupted (fault : ProgramFault)
deriving DecidableEq

open Text (decimalString)

def ProgramFault.message : ProgramFault → String
  | .tooManySlots n =>
    "state has " ++ decimalString n ++ " slots, at most " ++ decimalString maxSlots ++ " are addressable"
  | .operandAfterEnd pc pos =>
    "instruction " ++ decimalString pc ++ " has operand " ++ decimalString pos ++ " after an absent position"
  | .operandOutside pc slot size =>
    "instruction " ++ decimalString pc ++ " operand references slot " ++ decimalString slot ++ " but state size is "
      ++ decimalString size
  | .resultOutside pc slot size =>
    "instruction " ++ decimalString pc ++ " return references slot " ++ decimalString slot ++ " but state size is "
      ++ decimalString size
  | .operandWithoutSlot c pos =>
    "command " ++ decimalString c ++ ": no slot holds operand " ++ decimalString pos

def PlanError.message : PlanError → String
  | .danglingReference c t =>
    "command " ++ decimalString c ++ " references the result of command " ++ decimalString t
      ++ ", which does not precede it"
  | .foreignReturn => "cannot reuse return values across planners"
  | .invalidStateReplacement sig found =>
    "`" ++ sig ++ "` cannot replace state: expected a single bytes[] output, found (" ++ found ++ ")"
  | .returnReplaceConflict c k =>
    "command " ++ decimalString c ++ " replaces state but its return value is used by command " ++ decimalString k
  | .operandOverflow c sig n =>
    "command " ++ decimalString c ++ " (`" ++ sig ++ "`) takes " ++ decimalString n ++ " arguments, at most "
      ++ decimalString maxOperands ++ " fit in an instruction"
  | .slotOverflow c =>
    (match c with
      | some i => "command " ++ decimalString i
      | none   => "literal pre-allocation")
      ++ " needs a new slot but all " ++ decimalString maxSlots ++ " slots are live"
  | .corrupted f => "corrupted program: " ++ f.message

end CallPlan
