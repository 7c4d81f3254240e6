import CallPlan.Plan.Lifetimes
import CallPlan.Plan.Program
/-!
# Giving out slots

Literals take the first slots, in the order of their lifetimes.  Then the commands are taken in order: a command reads its
operands, the slots that it is the last to read become free, and its own result, if a later command reads it, takes the
lowest free slot or a new one.  So a value that is read for the last time can hand its slot to the result of the same
command.
-/
namespace CallPlan

/-- A number put into an ascending list. -/
def insertAscending (n : Nat) : List Nat → List Nat
  | []     => [n]
  | m :: l => if n < m then n :: m :: l else if n = m then m :: l else m :: insertAscending n l

/-- The slots while a plan is made. -/
structure Slots where
  /-- The table that the program starts with. -/
  table : List Bytes := []
  /-- The slots that nothing needs any more, ascending. -/
  free : List Nat := []
  /-- The slots in use, each behind the last command that reads it. -/
  expiring : List (Nat × Nat) := []
  literalSlots : List (Bytes × Nat) := []
  resultSlots : List (Nat × Nat) := []
deriving DecidableEq

namespace Slots

/-- Appends a slot to the table.  `command` is the command that asks for it. -/
def grow (s : Slots) (initial : Bytes) (command : Option Nat) : Except PlanError (Nat × Slots) :=
  if s.table.length < maxSlots then .ok (s.table.length, { s with table := s.table ++ [initial] })
  else .error (.slotOverflow command)

/-- Gives each literal a slot of its own. -/
def addLiterals (s : Slots) : List (Bytes × Nat) → Except PlanError Slots
  | []                => .ok s
  | (bs, last) :: lits =>
    match s.grow bs none with
    | .error e       => .error e
    | .ok (slot, s') =>
      addLiterals { s' with
        literalSlots := s'.literalSlots ++ [(bs, slot)], expiring := s'.expiring ++ [(last, slot)] } lits

/-- The slot that holds an argument; the whole table is in none. -/
def slotOf? (s : Slots) : Value → Option Nat
  | .literal _ bs => s.literalSlots.lookup bs
  | .result h     => s.resultSlots.lookup h.command.index
  | .state        => none

/-- The byte that names an argument. -/
def operand (s : Slots) (command position : Nat) (v : Value) : Except PlanError UInt8 :=
  match v with
  | .state => .ok SlotRef.state.toByte
  | v      =>
    match s.slotOf? v with
    | some slot => .ok (SlotRef.slot (.ofNat slot) v.isDynamic).toByte
    | none      => .error (.corrupted (.operandWithoutSlot command position))

/-- The bytes of the arguments from a position on. -/
def operands (s : Slots) (command position : Nat) : List Value → Except PlanError Bytes
  | []      => .ok []
  | v :: vs =>
    match s.operand command position v with
    | .error e => .error e
    | .ok b    =>
      match s.operands command (position + 1) vs with
      | .error e => .error e
      | .ok bs   => .ok (b :: bs)

/-- Frees the slots that the command at `i` is the last to read. -/
def release (s : Slots) (i : Nat) : Slots :=
  { s with
    free := ((s.expiring.filter (·.1 = i)).map (·.2)).foldl (fun l n => insertAscending n l) s.free
    expiring := s.expiring.filter (·.1 ≠ i) }

/-- The lowest free slot, or a new one. -/
def take (s : Slots) (i : Nat) : Except PlanError (Nat × Slots) :=
  match s.free with
  | slot :: rest => .ok (slot, { s with free := rest })
  | []           => s.grow [] (some i)

/-- The result byte of the command at `i`, and the slots after its result has a place. -/
def placeResult (s : Slots) (l : Lifetimes) (i : Nat) (c : Command) : Except PlanError (UInt8 × Slots) :=
  match l.results.lookup i with
  | none      => .ok (if c.replacesState then SlotRef.state.toByte else SlotRef.absent.toByte, s)
  | some last =>
    if c.replacesState then .error (.returnReplaceConflict i last)
    else
      match s.take i with
      | .error e       => .error e
      | .ok (slot, s') =>
        .ok ((SlotRef.slot (.ofNat slot) c.call.outputIsDynamic).toByte,
          { s' with
            resultSlots := s'.resultSlots ++ [(i, slot)], expiring := s'.expiring ++ [(last, slot)] })

/-- The instruction of the command at `i`, and the slots after it. -/
def assemble (s : Slots) (l : Lifetimes) (i : Nat) (c : Command) : Except PlanError (Instruction × Slots) :=
  if maxOperands < c.call.args.length then
    .error (.operandOverflow i c.call.signature c.call.args.length)
  else
    match s.operands i 0 c.call.args with
    | .error e => .error e
    | .ok bs   =>
      match (s.release i).placeResult l i c with
      | .error e     => .error e
      | .ok (r, s')  => .ok (⟨c.call.selector, Instruction.operandBlock bs, r, c.call.address⟩, s')

/-- The instructions of the commands from position `i` on, and the slots after them. -/
def assembleAll (s : Slots) (l : Lifetimes) (i : Nat) : List Command → Except PlanError (List Instruction × Slots)
  | []      => .ok ([], s)
  | c :: cs =>
    match s.assemble l i c with
    | .error e      => .error e
    | .ok (ins, s') =>
      match s'.assembleAll l (i + 1) cs with
      | .error e        => .error e
      | .ok (inss, s'') => .ok (ins :: inss, s'')

end Slots

/-- The program of a list of commands whose lifetimes are known. -/
def Lifetimes.compile (l : Lifetimes) (cs : List Command) : Except PlanError Program :=
  match ({} : Slots).addLiterals l.literals with
  | .error e => .error e
  | .ok s    =>
    match s.assembleAll l 0 cs with
    | .error e        => .error e
    | .ok (inss, s')  => .ok ⟨inss, s'.table⟩

/-- The program of a planner's commands. -/
def Planner.plan (p : Planner) : Except PlanError Program :=
  match Lifetimes.analyze p.id p.commands with
  | .error e => .error e
  | .ok l    => l.compile p.commands

end CallPlan
