import Diskette.Fifo.Ready

/-! Payload bytes stepped through the data port by hand, for as long as the controller keeps pace. -/
namespace Diskette.Fifo

/-- Whether a payload byte is wanted, or there, within the time one byte may take. -/
def payloadReady (base : UInt16) (ready : MainStatus → Bool) (ms : Nat) : Routine Bool := do
  match ← awaitReady base with
  | some _ => awaitStatus base ready ms
  | none => return false

/-- Reads so many bytes behind those in `taken`, which has the last one first. -/
def takePayload (base : UInt16) (ms : Nat) :
    (count : Nat) → (taken : List UInt8) → Routine (List UInt8)
  | 0, taken => return taken
  | count + 1, taken => do
    if ← payloadReady base MainStatus.canReadPayload ms then
      let b ← Platform.input (Port.data base)
      takePayload base ms count (b :: taken)
    else
      return taken

/-- The bytes read up to the first stall. -/
def readPayload (base : UInt16) (ms : Nat) (count : Nat) : Routine (List UInt8) := do
  return (← takePayload base ms count []).reverse

/-- Writes bytes, of which `given` more have gone before. -/
def givePayload (base : UInt16) (ms : Nat) :
    (bytes : List UInt8) → (given : Nat) → Routine Nat
  | [], given => return given
  | b :: rest, given => do
    if ← payloadReady base MainStatus.canWritePayload ms then
      Platform.output (Port.data base) b
      givePayload base ms rest (given + 1)
    else
      return given

/-- How many bytes went out before the first stall. -/
def writePayload (base : UInt16) (ms : Nat) (bytes : List UInt8) : Routine Nat :=
  givePayload base ms bytes 0

end Diskette.Fifo
