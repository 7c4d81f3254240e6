import CallPlan.Plan.Error
import CallPlan.Plan.Instruction
/-!
# Programs

A program is a list of instructions and the table of slots that it starts with.  `Program.validate` refuses a table with more
slots than an instruction can name, an operand behind an absent one, and any byte that names a slot outside the table.
-/
namespace CallPlan

structure Program where
  instructions : List Instruction
  state : List Bytes
deriving DecidableEq

namespace Program

def commandTexts (p : Program) : List String := p.instructions.map Instruction.text

def stateTexts (p : Program) : List String := p.state.map toHex

/-- Checks the operand bytes from a position on; `ended` says that an absent one came before. -/
def checkOperands (size pc pos : Nat) (ended : Bool) : Bytes → Except ProgramFault Unit
  | []      => .ok ()
  | b :: bs =>
    match SlotRef.ofByte b with
    | .absent   => checkOperands size pc (pos + 1) true bs
    | .state    =>
      if ended then .error (.operandAfterEnd pc pos) else checkOperands size pc (pos + 1) ended bs
    | .slot i _ =>
      if ended then .error (.operandAfterEnd pc pos)
      else if size ≤ i.toNat then .error (.operandOutside pc i.toNat size)
      else checkOperands size pc (pos + 1) ended bs

def checkResult (size pc : Nat) (b : UInt8) : Except ProgramFault Unit :=
  match SlotRef.ofByte b with
  | .slot i _ => if size ≤ i.toNat then .error (.resultOutside pc i.toNat size) else .ok ()
  | _         => .ok ()

/-- Checks the instructions from position `pc` on: of each the operands, then the result. -/
def checkInstructions (size pc : Nat) : List Instruction → Except ProgramFault Unit
  | []      => .ok ()
  | i :: is =>
    match checkOperands size pc 0 false i.operands.bytes with
    | .error e => .error e
    | .ok ()   =>
      match checkResult size pc i.result with
      | .error e => .error e
      | .ok ()   => checkInstructions size (pc + 1) is

def validate (p : Program) : Except PlanError Unit :=
  if maxSlots < p.state.length then .error (.corrupted (.tooManySlots p.state.length))
  else
    match checkInstructions p.state.length 0 p.instructions with
    | .error e => .error (.corrupted e)
    | .ok ()   => .ok ()

end Program
end CallPlan
