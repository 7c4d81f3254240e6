import CallPlan.Plan.Slots
/-!
# What a program does

A world answers calls with bytes.  `Program.calls` runs the instructions on the table of slots and lists the calls that they
make; `directCalls` lists the calls of the commands themselves, each handed the values that it names, with no table at all.
Both refuse what has no value: a slot outside the table, a result that is not there yet.
-/
namespace CallPlan

/-- What a call is handed at one position: bytes, or the whole table. -/
inductive Datum where
  | bytes (value : Bytes)
  | table
deriving DecidableEq

/-- A call as it is made. -/
structure CallMade where
  address : Address
  selector : Selector
  args : List Datum
deriving DecidableEq

/-- The answer to every call. -/
abbrev World := CallMade → Bytes

/-! ## Instructions -/

/-- The data that operand bytes name, up to the first absent one. -/
def fetch (table : List Bytes) : Bytes → Option (List Datum)
  | []      => some []
  | b :: bs =>
    match SlotRef.ofByte b with
    | .absent   => some []
    | .state    => (fetch table bs).map (.table :: ·)
    | .slot i _ =>
      match table[i.toNat]? with
      | none   => none
      | some v => (fetch table bs).map (.bytes v :: ·)

/-- The table after an answer went where a result byte says. -/
def store (table : List Bytes) (result : UInt8) (answer : Bytes) : Option (List Bytes) :=
  match SlotRef.ofByte result with
  | .slot i _ => if i.toNat < table.length then some (table.set i.toNat answer) else none
  | _         => some table

/-- The calls that instructions make on a table. -/
def callsFrom (w : World) (table : List Bytes) : List Instruction → Option (List CallMade)
  | []      => some []
  | i :: is =>
    match fetch table i.operands.bytes with
    | none      => none
    | some args =>
      let call : CallMade := ⟨i.address, i.selector, args⟩
      match store table i.result (w call) with
      | none        => none
      | some table' => (callsFrom w table' is).map (call :: ·)

/-- The calls that a program makes. -/
def Program.calls (w : World) (p : Program) : Option (List CallMade) := callsFrom w p.state p.instructions

/-! ## Commands -/

/-- What an argument stands for, behind commands with these answers. -/
def Value.datum? (answers : List Bytes) : Value → Option Datum
  | .literal _ bs => some (.bytes bs)
  | .result h     => answers[h.command.index]?.map .bytes
  | .state        => some .table

/-- What a list of arguments stands for. -/
def Value.data? (answers : List Bytes) : List Value → Option (List Datum)
  | []      => some []
  | v :: vs =>
    match v.datum? answers with
    | none   => none
    | some d => (Value.data? answers vs).map (d :: ·)

/-- The calls of commands that come behind commands with these answers. -/
def directCallsFrom (w : World) (answers : List Bytes) : List Command → Option (List CallMade)
  | []      => some []
  | c :: cs =>
    match Value.data? answers c.call.args with
    | none      => none
    | some args =>
      let call : CallMade := ⟨c.call.address, c.call.selector, args⟩
      (directCallsFrom w (answers ++ [w call]) cs).map (call :: ·)

/-- The calls of a list of commands, taken one after the other. -/
def directCalls (w : World) (cs : List Command) : Option (List CallMade) := directCallsFrom w [] cs

end CallPlan
