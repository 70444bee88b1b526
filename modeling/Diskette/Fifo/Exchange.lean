import Diskette.Command.ResultBytes
import Diskette.Fifo.Ready

/-! Command and result bytes through the data port, each after a status that asks for it. -/
namespace Diskette.Fifo

/-- Waits for a status that takes a byte; `false` if the controller wants something else. -/
def writable (base : UInt16) : Routine Bool := do
  match ← awaitReady base with
  | some status => return status.canWrite
  | none => return false

def readable (base : UInt16) : Routine Bool := do
  match ← awaitReady base with
  | some status => return status.canRead
  | none => return false

/-- Sends bytes, of which `sent` more have gone before. -/
def sendFrom (base : UInt16) (total : Nat) :
    (bytes : List UInt8) → (sent : Nat) → Routine (Except Failure Unit)
  | [], _ => return .ok ()
  | b :: rest, sent => do
    if ← writable base then
      Platform.output (Port.data base) b
      sendFrom base total rest (sent + 1)
    else
      return .error (.writeTimeout sent total)

def send (base : UInt16) (bytes : List UInt8) : Routine (Except Failure Unit) :=
  sendFrom base bytes.length bytes 0

/-- Reads bytes for as long as the controller has one, so many at the most. -/
def collect (base : UInt16) : (most : Nat) → Routine { bytes : List UInt8 // bytes.length ≤ most }
  | 0 => return ⟨[], Nat.le_refl 0⟩
  | most + 1 => do
    if ← readable base then
      let b ← Platform.input (Port.data base)
      let ⟨rest, bound⟩ ← collect base most
      return ⟨b :: rest, Nat.succ_le_succ bound⟩
    else
      return ⟨[], Nat.zero_le _⟩

/-- Reads a result; fewer bytes than the fewest are a failure. -/
def receive (base : UInt16) (n : ResultLength) : Routine (Except Failure (ResultBytes n)) := do
  let ⟨bytes, bound⟩ ← collect base (min n.most maxResult)
  return if h : n.fewest ≤ bytes.length then
    .ok ⟨bytes, h, Nat.le_trans bound (Nat.min_le_left _ _)⟩
  else .error .resultTimeout

/-- Looks at the status after a result before its busy bit counts. -/
def settleLooks : Nat := 20

/-- How long the busy bit may stand after a result. -/
def busyTimeout : Nat := 1000

/-- Waits for the end of the command: its busy bit has to clear. -/
def finish (base : UInt16) : Routine (Except Failure Unit) := do
  let _ ← awaitReadyWithin base settleLooks
  if ← awaitStatus base (fun s => !s.busy) busyTimeout then return .ok ()
  else return .error .resultTimeout

/-- How long a result may take to become ready. -/
def resultTimeout : Nat := 1000

/-- Waits for a result to become ready. -/
def awaitResult (base : UInt16) : Routine (Except Failure Unit) := do
  if ← awaitStatus base MainStatus.dataReady resultTimeout then return .ok ()
  else return .error .resultTimeout

/-- Waits for the result of a command that has one. -/
def awaitAnswer (base : UInt16) (n : ResultLength) : Routine (Except Failure Unit) :=
  if n.most > 0 then awaitResult base else return .ok ()

/-- Sends a command that does not interrupt, and reads its result. -/
def transact (base : UInt16) (bytes : List UInt8) (n : ResultLength) :
    Routine (Except Failure (ResultBytes n)) := ExceptT.run do
  ExceptT.mk (Platform.uninterrupted (send base bytes))
  ExceptT.mk (awaitAnswer base n)
  let result ← ExceptT.mk (Platform.uninterrupted (receive base n))
  ExceptT.mk (finish base)
  return result

end Diskette.Fifo
