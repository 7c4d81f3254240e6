import CallPlan.Plan.Program
import CallPlan.Text.Split
/-!
# Program listings

A program as text for a reader: a header, one line an instruction, and the table that the program starts with.  A long slot
shows its first 32 bytes and its length.
-/
namespace CallPlan
namespace Program

/-- The number of hexadecimal digits of a slot that a listing shows. -/
def previewDigits : Nat := 64

/-- What a listing shows of a slot. -/
def preview (slot : Bytes) : List Char :=
  if slot.isEmpty then "(empty)".toList
  else
    let digits := Hex.digits slot
    if digits.length ≤ previewDigits then '0' :: 'x' :: digits
    else '0' :: 'x' :: digits.take previewDigits ++ "… (".toList ++ Text.decimal slot.length ++ " bytes)".toList

/-- The texts of the operands before the first absent one. -/
def operandTexts (operands : Bytes) : List (List Char) :=
  ((operands.map SlotRef.ofByte).takeWhile (· ≠ .absent)).map (·.text.toList)

def instructionLine (pc : Nat) (i : Instruction) : List Char :=
  Text.padStart 4 '0' (Text.decimal pc) ++ " | ".toList ++ Hex.digits i.selector.bytes ++ " @ ".toList
    ++ i.address.text.toList ++ " | ".toList ++ Text.joinWith ", ".toList (operandTexts i.operands.bytes)
    ++ " -> ".toList ++ (SlotRef.ofByte i.result).text.toList ++ ['\n']

def instructionLines (pc : Nat) : List Instruction → List Char
  | []      => []
  | i :: is => instructionLine pc i ++ instructionLines (pc + 1) is

def slotLine (index : Nat) (slot : Bytes) : List Char :=
  's' :: Text.padEnd 3 ' ' (Text.decimal index) ++ " = ".toList ++ preview slot ++ ['\n']

def slotLines (index : Nat) : List Bytes → List Char
  | []      => []
  | b :: bs => slotLine index b ++ slotLines (index + 1) bs

def header (p : Program) : List Char :=
  ";; instructions=".toList ++ Text.decimal p.instructions.length ++ " slots=".toList ++ Text.decimal p.state.length
    ++ ['\n']

def stateSection (state : List Bytes) : List Char :=
  if state.isEmpty then [] else "\n;; state\n".toList ++ slotLines 0 state

def listingChars (p : Program) : List Char := p.header ++ instructionLines 0 p.instructions ++ stateSection p.state

/-- The listing of a program. -/
def listing (p : Program) : String := String.ofList p.listingChars

end Program
end CallPlan
